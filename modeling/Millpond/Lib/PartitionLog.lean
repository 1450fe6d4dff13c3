import Mathlib.Data.List.Basic
import Mathlib.Algebra.Order.Group.Nat
import Mathlib.Data.Nat.Notation
import Mathlib.Logic.Function.Basic
import Mathlib.Logic.Relation

set_option autoImplicit false

/-! # A log in partitions

A broker that keeps records in partitions, appends at the end and trims at the start. A reader that has
settled an offset has nothing to do any more with the records before it that the broker still has. What
is settled stays settled whatever the broker does, so offsets read from it earlier are good later. -/

namespace Millpond

/-- Records with a partition and an offset. -/
class Placed (ρ : Type) (κ : outParam Type) where
  key : ρ → κ
  offset : ρ → ℕ

/-- The records the log still has, the offset where each partition starts and the next one it hands
    out. -/
structure PartitionLog (ρ : Type) {κ : Type} [Placed ρ κ] where
  retained : List ρ
  start : κ → ℕ
  next : κ → ℕ
  ordered : ∀ k, start k ≤ next k
  within : ∀ m ∈ retained, start (Placed.key m) ≤ Placed.offset m ∧
    Placed.offset m < next (Placed.key m)

namespace PartitionLog

variable {ρ κ : Type} [Placed ρ κ] {b b' : PartitionLog ρ} {done done' : ρ → Prop} {k : κ} {n n' : ℕ}

/-! ## What the broker does -/

/-- A record comes at the end of its partition, or at a higher offset. -/
def append [DecidableEq κ] (b : PartitionLog ρ) (m : ρ)
    (h : b.next (Placed.key m) ≤ Placed.offset m) : PartitionLog ρ where
  retained := b.retained ++ [m]
  start := b.start
  next := Function.update b.next (Placed.key m) (Placed.offset m + 1)
  ordered k := by
    have hk := b.ordered k
    by_cases heq : k = Placed.key m
    · subst heq
      rw [Function.update_self]
      omega
    · rw [Function.update_of_ne heq]
      exact hk
  within m' hm' := by
    rcases List.mem_append.1 hm' with hold | hnew
    · obtain ⟨hlow, hhigh⟩ := b.within m' hold
      refine ⟨hlow, ?_⟩
      by_cases heq : Placed.key m' = Placed.key m
      · rw [heq] at hhigh ⊢
        rw [Function.update_self]
        omega
      · rw [Function.update_of_ne heq]
        exact hhigh
    · obtain rfl := List.mem_singleton.1 hnew
      rw [Function.update_self]
      exact ⟨(b.ordered _).trans h, Nat.lt_succ_self _⟩

/-- Records before the new starts are deleted; others may be compacted away. -/
def trim (b : PartitionLog ρ) (start : κ → ℕ)
    (h : ∀ k, b.start k ≤ start k ∧ start k ≤ b.next k) (keep : ρ → Bool) : PartitionLog ρ where
  retained := b.retained.filter fun m =>
    decide (start (Placed.key m) ≤ Placed.offset m) && keep m
  start := start
  next := b.next
  ordered k := (h k).2
  within m hm := by
    obtain ⟨hin, hkeep⟩ := List.mem_filter.1 hm
    exact ⟨of_decide_eq_true (Bool.and_eq_true_iff.1 hkeep).1, (b.within m hin).2⟩

/-- One move of the broker. -/
inductive Moves [DecidableEq κ] : PartitionLog ρ → PartitionLog ρ → Prop where
  | append (b : PartitionLog ρ) (m : ρ) (h : b.next (Placed.key m) ≤ Placed.offset m) :
      Moves b (b.append m h)
  | trim (b : PartitionLog ρ) (start : κ → ℕ)
      (h : ∀ k, b.start k ≤ start k ∧ start k ≤ b.next k) (keep : ρ → Bool) :
      Moves b (b.trim start h keep)

/-- The offsets of a partition that the broker knows lie between two bounds, for good. -/
def Bounds (b : PartitionLog ρ) (k : κ) (low high : ℕ) : Prop := low ≤ b.start k ∧ high ≤ b.next k

theorem Moves.start_le [DecidableEq κ] (h : Moves b b') (k : κ) : b.start k ≤ b'.start k := by
  cases h with
  | append m h => exact le_refl _
  | trim start h keep => exact (h k).1

theorem Moves.next_le [DecidableEq κ] (h : Moves b b') (k : κ) : b.next k ≤ b'.next k := by
  cases h with
  | append m h =>
      show b.next k ≤ Function.update b.next (Placed.key m) (Placed.offset m + 1) k
      by_cases heq : k = Placed.key m
      · subst heq
        rw [Function.update_self]
        omega
      · rw [Function.update_of_ne heq]
  | trim start h keep => exact le_refl _

theorem Bounds.moves [DecidableEq κ] {low high : ℕ} (h : Bounds b k low high) (hmoves : Moves b b') :
    Bounds b' k low high := ⟨h.1.trans (hmoves.start_le k), h.2.trans (hmoves.next_le k)⟩

/-! ## Settled offsets -/

/-- Every record of the partition before `n` that the log still has is done with. -/
structure Settled (b : PartitionLog ρ) (done : ρ → Prop) (k : κ) (n : ℕ) : Prop where
  le_next : n ≤ b.next k
  done : ∀ m ∈ b.retained, Placed.key m = k → Placed.offset m < n → done m

theorem Settled.moves [DecidableEq κ] (h : Settled b done k n) (hmoves : Moves b b') :
    Settled b' done k n := by
  refine ⟨h.le_next.trans (hmoves.next_le k), fun m hm hkey hlt => ?_⟩
  cases hmoves with
  | append new hnew =>
      rcases List.mem_append.1 hm with hold | hlast
      · exact h.done m hold hkey hlt
      · obtain rfl := List.mem_singleton.1 hlast
        have := h.le_next
        rw [hkey] at hnew
        omega
  | trim start hstart keep => exact h.done m (List.mem_of_mem_filter hm) hkey hlt

theorem Settled.mono (h : Settled b done k n) (hdone : ∀ m ∈ b.retained, done m → done' m) :
    Settled b done' k n := ⟨h.le_next, fun m hm hkey hlt => hdone m hm (h.done m hm hkey hlt)⟩

theorem Settled.le (h : Settled b done k n) (hle : n' ≤ n) : Settled b done k n' :=
  ⟨hle.trans h.le_next, fun m hm hkey hlt => h.done m hm hkey (by omega)⟩

/-- Before the start of the partition there is nothing. -/
theorem settled_of_le_start (h : n ≤ b.start k) : Settled b done k n := by
  refine ⟨h.trans (b.ordered k), fun m hm hkey hlt => ?_⟩
  have hstart := (b.within m hm).1
  rw [hkey] at hstart
  omega

/-- An offset is settled further when the records up to it are done with. -/
theorem Settled.extend (h : Settled b done k n) (hle : n' ≤ b.next k)
    (hnew : ∀ m ∈ b.retained, Placed.key m = k → n ≤ Placed.offset m → Placed.offset m < n' → done m) :
    Settled b done k n' := by
  refine ⟨hle, fun m hm hkey hlt => ?_⟩
  rcases Nat.lt_or_ge (Placed.offset m) n with hbefore | hafter
  · exact h.done m hm hkey hbefore
  · exact hnew m hm hkey hafter hlt

/-! ## Where a reader starts -/

/-- Where a reader goes that has no offset in range. -/
inductive Reset where
  | earliest
  | latest
deriving DecidableEq, Repr

def target (b : PartitionLog ρ) (reset : Reset) (k : κ) : ℕ :=
  match reset with
  | .earliest => b.start k
  | .latest => b.next k

/-- The offset is one the log can serve. -/
def InRange (b : PartitionLog ρ) (k : κ) (n : ℕ) : Prop := b.start k ≤ n ∧ n ≤ b.next k

instance (b : PartitionLog ρ) (k : κ) (n : ℕ) : Decidable (b.InRange k n) :=
  inferInstanceAs (Decidable (_ ∧ _))

/-- Where a reader starts: at its offset if that is in range, else at the target. -/
def resolve (b : PartitionLog ρ) (reset : Reset) (k : κ) : Option ℕ → ℕ
  | some n => if b.InRange k n then n else b.target reset k
  | none => b.target reset k

theorem inRange_target (b : PartitionLog ρ) (reset : Reset) (k : κ) : b.InRange k (b.target reset k) := by
  cases reset with
  | earliest => exact ⟨le_refl _, b.ordered k⟩
  | latest => exact ⟨b.ordered k, le_refl _⟩

theorem resolve_inRange (b : PartitionLog ρ) (reset : Reset) (k : κ) (offset : Option ℕ) :
    b.InRange k (b.resolve reset k offset) := by
  unfold resolve
  split
  · split
    · assumption
    · exact inRange_target b reset k
  · exact inRange_target b reset k

/-- A reader starts at its own offset, or at the target. -/
theorem resolve_cases (b : PartitionLog ρ) (reset : Reset) (k : κ) (offset : Option ℕ) :
    offset = some (b.resolve reset k offset) ∨
      offset ≠ some (b.resolve reset k offset) ∧ b.resolve reset k offset = b.target reset k := by
  unfold resolve
  split
  · next n =>
      split
      · exact Or.inl rfl
      · next hout =>
          refine Or.inr ⟨fun heq => hout ?_, rfl⟩
          rw [Option.some.inj heq]
          exact inRange_target b reset k
  · exact Or.inr ⟨Option.some_ne_none _ ∘ Eq.symm, rfl⟩

end PartitionLog

end Millpond
