import Mathlib.Data.List.Basic
import Mathlib.Data.List.Nodup
import Mathlib.Data.Nat.Notation

set_option autoImplicit false

/-! # Ledgers

A list of entries under keys, one for each key, that is only ever added to: the receipts of an
idempotent service. Whatever is recorded first under a key stays. -/

namespace Millpond

variable {κ α : Type}

/-- Entries under distinct keys, oldest first. -/
structure Ledger (κ α : Type) where
  entries : List (κ × α)
  once : (entries.map Prod.fst).Nodup

namespace Ledger

def empty : Ledger κ α := ⟨[], List.nodup_nil⟩

variable [DecidableEq κ]

/-- The entry under a key. -/
def lookup (ledger : Ledger κ α) (key : κ) : Option α := ledger.entries.lookup key

theorem lookup_eq_some {ledger : Ledger κ α} {key : κ} {a : α} :
    ledger.lookup key = some a ↔ (key, a) ∈ ledger.entries := by
  obtain ⟨entries, once⟩ := ledger
  unfold lookup
  induction entries with
  | nil => simp
  | cons entry rest ih =>
      obtain ⟨k, b⟩ := entry
      simp only [List.map_cons, List.nodup_cons] at once
      rw [List.lookup_cons]
      by_cases h : key = k
      · subst h
        have hnot : (key, a) ∉ rest := fun hmem => once.1 (List.mem_map.2 ⟨_, hmem, rfl⟩)
        simp [hnot, eq_comm]
      · have hbeq : (key == k) = false := by simpa using h
        simp only [hbeq, List.mem_cons, Prod.mk.injEq, h, false_and, false_or]
        exact ih once.2

theorem lookup_eq_none {ledger : Ledger κ α} {key : κ} :
    ledger.lookup key = none ↔ ∀ a, (key, a) ∉ ledger.entries := by
  constructor
  · intro h a hmem
    rw [lookup_eq_some.2 hmem] at h
    exact absurd h (by simp)
  · intro h
    cases hlook : ledger.lookup key with
    | none => rfl
    | some a => exact absurd (lookup_eq_some.1 hlook) (h a)

/-- Record `a` under a key that has no entry; a key that has one keeps it. -/
def record (ledger : Ledger κ α) (key : κ) (a : α) : Ledger κ α :=
  if h : ledger.lookup key = none then
    { entries := ledger.entries ++ [(key, a)]
      once := by
        rw [List.map_append, List.nodup_append]
        refine ⟨ledger.once, by simp, ?_⟩
        intro k hk k' hk'
        obtain ⟨⟨k₀, b⟩, hmem, rfl⟩ := List.mem_map.1 hk
        obtain rfl : k' = key := by simpa using hk'
        intro heq
        obtain rfl : k₀ = k' := heq
        exact lookup_eq_none.1 h b hmem }
  else ledger

theorem mem_record {ledger : Ledger κ α} {key : κ} {a : α} (h : ledger.lookup key = none)
    {entry : κ × α} :
    entry ∈ (ledger.record key a).entries ↔ entry ∈ ledger.entries ∨ entry = (key, a) := by
  simp [record, h]

@[simp] theorem lookup_record_self {ledger : Ledger κ α} {key : κ} {a : α}
    (h : ledger.lookup key = none) : (ledger.record key a).lookup key = some a :=
  lookup_eq_some.2 ((mem_record h).2 (Or.inr rfl))

/-- An entry stays whatever is recorded later. -/
theorem lookup_record {ledger : Ledger κ α} {key key' : κ} {a a' : α}
    (h : ledger.lookup key = some a) : (ledger.record key' a').lookup key = some a := by
  by_cases hnew : ledger.lookup key' = none
  · exact lookup_eq_some.2 ((mem_record hnew).2 (Or.inl (lookup_eq_some.1 h)))
  · simpa [record, hnew] using h

/-- The entries under a key. -/
def under (ledger : Ledger κ α) (key : κ) : List α :=
  (ledger.entries.filter (·.1 = key)).map Prod.snd

/-- **A key with an entry has exactly one.** -/
theorem under_eq_singleton {ledger : Ledger κ α} {key : κ} {a : α}
    (h : ledger.lookup key = some a) : ledger.under key = [a] := by
  obtain ⟨entries, once⟩ := ledger
  unfold lookup at h
  unfold under
  induction entries with
  | nil => exact absurd h (by simp)
  | cons entry rest ih =>
      obtain ⟨k, b⟩ := entry
      simp only [List.map_cons, List.nodup_cons] at once
      rw [List.lookup_cons] at h
      by_cases hk : key = k
      · subst hk
        have hrest : rest.filter (·.1 = key) = [] := by
          refine List.filter_eq_nil_iff.2 (fun e he => ?_)
          intro hkey
          exact once.1 (List.mem_map.2 ⟨e, he, by simpa using hkey⟩)
        have hba : b = a := by simpa using h
        simp [hrest, hba]
      · have hbeq : (key == k) = false := by simpa using hk
        simp only [hbeq] at h
        have hk' : ¬ k = key := fun heq => hk heq.symm
        simpa [hk'] using ih once.2 h

end Ledger

end Millpond
