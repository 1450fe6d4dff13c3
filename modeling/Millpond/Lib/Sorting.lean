import Mathlib.Data.List.Sort
import Mathlib.Data.String.Basic
import Millpond.Lib.Columnar

set_option autoImplicit false

/-! # Lexicographic order, and stable sorts of columns

Lists of one length are compared at their first difference, which a separator at a fixed place does
not move. A table is sorted by row numbers: key after key, nulls last, and ties by position. -/

namespace Millpond.Sorting

open Columnar (Arr)

/-! ## Lists of one length -/

section Lex

variable {α : Type} [LinearOrder α]

theorem append_lt_append_iff {u v : List α} (h : u.length = v.length) (s t : List α) :
    u ++ s < v ++ t ↔ u < v ∨ u = v ∧ s < t := by
  induction u generalizing v with
  | nil =>
      obtain rfl : v = [] := List.eq_nil_of_length_eq_zero h.symm
      simp
  | cons a u ih =>
      cases v with
      | nil => cases h
      | cons b v =>
          have hlength : u.length = v.length := by simpa using h
          simp only [List.cons_append, List.cons_lt_cons_iff, ih hlength, List.cons.injEq]
          tauto

/-- The same separator at the same place decides nothing. -/
theorem separated_lt_iff (c : α) {u v : List α} (h : u.length = v.length) (s t : List α) :
    u ++ c :: s < v ++ c :: t ↔ u < v ∨ u = v ∧ s < t := by
  rw [append_lt_append_iff h, List.cons_lt_cons_iff]
  simp

end Lex

/-! ## The order of rows -/

/-- Ascending, nulls last. -/
def nullsLast {α : Type} (lt : α → α → Prop) : Option α → Option α → Prop
  | some a, some b => lt a b
  | some _, none => True
  | none, _ => False

instance nullsLast_decidable {α : Type} {lt : α → α → Prop} [DecidableRel lt] :
    DecidableRel (nullsLast lt)
  | some a, some b => inferInstanceAs (Decidable (lt a b))
  | some _, none => .isTrue trivial
  | none, _ => .isFalse id

/-- What one key column says of two rows, by their numbers. -/
structure RowOrder where
  lt : ℕ → ℕ → Prop
  same : ℕ → ℕ → Prop

/-- Ascending by an array, nulls last. -/
def RowOrder.of {α : Type} (lt : α → α → Prop) (cells : Arr α) : RowOrder where
  lt := fun i j => nullsLast lt cells[i]?.join cells[j]?.join
  same := fun i j => cells[i]?.join = cells[j]?.join

/-- Key after key, ties by position: the order that a stable sort leaves. -/
def before : List RowOrder → ℕ → ℕ → Prop
  | [], i, j => i < j
  | key :: keys, i, j => key.lt i j ∨ key.same i j ∧ before keys i j

/-- Two keys that say the same of all rows. -/
def RowOrder.Agrees (k k' : RowOrder) : Prop :=
  ∀ i j, (k.lt i j ↔ k'.lt i j) ∧ (k.same i j ↔ k'.same i j)

theorem before_congr {keys keys' : List RowOrder} (h : List.Forall₂ RowOrder.Agrees keys keys')
    (i j : ℕ) : before keys i j ↔ before keys' i j := by
  induction h with
  | nil => exact Iff.rfl
  | cons hkey _ ih =>
      unfold before
      rw [(hkey i j).1, (hkey i j).2, ih]

/-- A map that keeps the order keeps what the key says. -/
theorem agrees_map {α β : Type} {lt : α → α → Prop} {lt' : β → β → Prop} {f : α → β}
    (hlt : ∀ a b, lt a b ↔ lt' (f a) (f b)) (hf : Function.Injective f) (cells : Arr α) :
    (RowOrder.of lt cells).Agrees (RowOrder.of lt' (cells.map (Option.map f))) := by
  have hcell : ∀ i : ℕ, ((cells.map (Option.map f))[i]?).join = (cells[i]?.join).map f := by
    intro i
    rw [List.getElem?_map]
    cases cells[i]? <;> rfl
  intro i j
  unfold RowOrder.of
  dsimp only
  rw [hcell, hcell]
  constructor
  · cases cells[i]?.join <;> cases cells[j]?.join <;> simp [nullsLast, hlt]
  · exact ((Option.map_injective hf).eq_iff).symm

/-! ## A sort -/

/-- A key whose rows are in line: equal, or one before the other. -/
structure RowOrder.Lawful (k : RowOrder) : Prop where
  refl : ∀ i, k.same i i
  symm : ∀ {i j}, k.same i j → k.same j i
  trans : ∀ {i j l}, k.same i j → k.same j l → k.same i l
  irrefl : ∀ {i j}, k.same i j → ¬ k.lt i j
  lt_trans : ∀ {i j l}, k.lt i j → k.lt j l → k.lt i l
  lt_of_same : ∀ {i j l}, k.same i j → k.lt j l → k.lt i l
  lt_of_lt_same : ∀ {i j l}, k.lt i j → k.same j l → k.lt i l
  trichotomous : ∀ i j, k.lt i j ∨ k.same i j ∨ k.lt j i

theorem lawful_of {α : Type} [LinearOrder α] (cells : Arr α) :
    (RowOrder.of (· < ·) cells).Lawful := by
  have hlt : ∀ {a b c : Option α}, nullsLast (· < ·) a b → nullsLast (· < ·) b c →
      nullsLast (· < ·) a c := by
    intro a b c hab hbc
    cases a <;> cases b <;> cases c <;> simp_all [nullsLast]
    exact lt_trans hab hbc
  constructor
  · exact fun _ => rfl
  · exact fun h => h.symm
  · exact fun h h' => h.trans h'
  · intro i j hsame hlt
    simp only [RowOrder.of] at hsame hlt
    rw [hsame] at hlt
    cases hcell : cells[j]?.join <;> simp [nullsLast, hcell] at hlt
  · exact fun h h' => hlt h h'
  · intro i j l hsame hlt
    simp only [RowOrder.of] at hsame hlt ⊢
    rwa [hsame]
  · intro i j l hlt hsame
    simp only [RowOrder.of] at hsame hlt ⊢
    rwa [← hsame]
  · intro i j
    simp only [RowOrder.of]
    cases hi : cells[i]?.join <;> cases hj : cells[j]?.join <;> simp [nullsLast]
    exact lt_trichotomy _ _

section Before

variable {keys : List RowOrder} (h : ∀ k ∈ keys, k.Lawful)

include h

theorem before_trichotomous {i j : ℕ} (hne : i ≠ j) : before keys i j ∨ before keys j i := by
  induction keys with
  | nil => exact lt_or_gt_of_ne hne
  | cons key rest ih =>
      have hkey := h key List.mem_cons_self
      rcases hkey.trichotomous i j with hlt | hsame | hlt
      · exact .inl (.inl hlt)
      · rcases ih fun k hk => h k (List.mem_cons_of_mem _ hk) with hrest | hrest
        · exact .inl (.inr ⟨hsame, hrest⟩)
        · exact .inr (.inr ⟨hkey.symm hsame, hrest⟩)
      · exact .inr (.inl hlt)

theorem before_trans {i j l : ℕ} (hij : before keys i j) (hjl : before keys j l) :
    before keys i l := by
  induction keys with
  | nil => exact Nat.lt_trans hij hjl
  | cons key rest ih =>
      have hkey := h key List.mem_cons_self
      rcases hij with hlt | ⟨hsame, hrest⟩ <;> rcases hjl with hlt' | ⟨hsame', hrest'⟩
      · exact .inl (hkey.lt_trans hlt hlt')
      · exact .inl (hkey.lt_of_lt_same hlt hsame')
      · exact .inl (hkey.lt_of_same hsame hlt')
      · exact .inr ⟨hkey.trans hsame hsame',
          ih (fun k hk => h k (List.mem_cons_of_mem _ hk)) hrest hrest'⟩

theorem before_irrefl (i : ℕ) : ¬ before keys i i := by
  induction keys with
  | nil => exact Nat.lt_irrefl i
  | cons key rest ih =>
      have hkey := h key List.mem_cons_self
      rintro (hlt | ⟨-, hrest⟩)
      · exact hkey.irrefl (hkey.refl i) hlt
      · exact ih (fun k hk => h k (List.mem_cons_of_mem _ hk)) hrest

end Before

/-- The row numbers in order. -/
def sortRows (keys : List RowOrder) [DecidableRel (before keys)] (n : ℕ) : List ℕ :=
  (List.range n).insertionSort fun i j => ¬ before keys j i

theorem sortRows_sorted {keys : List RowOrder} [DecidableRel (before keys)]
    (h : ∀ k ∈ keys, k.Lawful) (n : ℕ) :
    (sortRows keys n).Perm (List.range n) ∧ (sortRows keys n).Pairwise (before keys) := by
  have hperm : (sortRows keys n).Perm (List.range n) := List.perm_insertionSort _ _
  refine ⟨hperm, ?_⟩
  have htotal : Std.Total fun i j => ¬ before keys j i := by
    refine ⟨fun i j => ?_⟩
    by_contra hnot
    obtain ⟨hji, hij⟩ := not_or.1 hnot
    exact before_irrefl h i (before_trans h (not_not.1 hij) (not_not.1 hji))
  have htrans : IsTrans ℕ fun i j => ¬ before keys j i := by
    refine ⟨fun i j l hji hlj hli => ?_⟩
    by_cases hij : i = j
    · exact hlj (hij ▸ hli)
    · exact hlj (before_trans h hli ((before_trichotomous h hij).resolve_right hji))
  have hsorted := List.pairwise_insertionSort (fun i j => ¬ before keys j i) (List.range n)
  have hnodup : (sortRows keys n).Nodup := hperm.nodup_iff.2 List.nodup_range
  exact (hsorted.and hnodup).imp fun hpair =>
    (before_trichotomous h hpair.2).resolve_right hpair.1

end Millpond.Sorting
