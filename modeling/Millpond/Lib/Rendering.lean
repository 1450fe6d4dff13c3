import Mathlib.Data.List.Sort
import Mathlib.Data.Prod.Lex
import Mathlib.Data.String.Basic
import Mathlib.Data.Nat.Notation

set_option autoImplicit false

/-! # Rendered names

Joining fields with a separator that no field contains can be read back, and so can integers joined
with a minus sign. Sorting by a total key forgets the order of a list and nothing else. -/

namespace Millpond

/-! ## Separators -/

/-- A list splits at most one way at the first `c`. -/
theorem append_cons_inj {α : Type} {c : α} {l l' r r' : List α} (hl : c ∉ l) (hl' : c ∉ l')
    (h : l ++ c :: r = l' ++ c :: r') : l = l' ∧ r = r' := by
  induction l generalizing l' with
  | nil =>
      cases l' with
      | nil => exact ⟨rfl, (List.cons.inj h).2⟩
      | cons a l' =>
          have hhead : c = a := (List.cons.inj h).1
          exact absurd (hhead ▸ List.mem_cons_self) hl'
  | cons a l ih =>
      cases l' with
      | nil =>
          have hhead : a = c := (List.cons.inj h).1
          exact absurd (hhead ▸ List.mem_cons_self) hl
      | cons b l' =>
          obtain ⟨rfl, htail⟩ := List.cons.inj h
          obtain ⟨rfl, rfl⟩ := ih (fun hm => hl (List.mem_cons_of_mem _ hm))
            (fun hm => hl' (List.mem_cons_of_mem _ hm)) htail
          exact ⟨rfl, rfl⟩

/-- What a joined list has is from its pieces or from the separator. -/
theorem mem_intercalate {α : Type} {a : α} {sep : List α} {l : List (List α)}
    (h : a ∈ sep.intercalate l) : a ∈ sep ∨ ∃ piece ∈ l, a ∈ piece := by
  induction l with
  | nil => cases h
  | cons piece rest ih =>
      cases rest with
      | nil =>
          rw [List.intercalate_singleton] at h
          exact Or.inr ⟨piece, List.mem_cons_self, h⟩
      | cons next rest =>
          rw [List.intercalate_cons_cons, List.mem_append, List.mem_append] at h
          rcases h with (h | h) | h
          · exact Or.inr ⟨piece, List.mem_cons_self, h⟩
          · exact Or.inl h
          · exact (ih h).imp id fun ⟨p, hp, ha⟩ => ⟨p, List.mem_cons_of_mem _ hp, ha⟩

theorem notMem_intercalate {sep : String} {c : Char} {l : List String} (hsep : c ∉ sep.toList)
    (h : ∀ s ∈ l, c ∉ s.toList) : c ∉ (sep.intercalate l).toList := by
  rw [String.toList_intercalate]
  intro hc
  rcases mem_intercalate hc with hc | ⟨piece, hpiece, hc⟩
  · exact hsep hc
  · obtain ⟨s, hs, rfl⟩ := List.mem_map.1 hpiece
    exact h s hs hc

/-- Fields without the separator are read back from their joined text. -/
theorem intercalate_inj {sep : String} {c : Char} (hsep : sep.toList = [c]) {ss tt : List String}
    (hs : ∀ s ∈ ss, c ∉ s.toList) (ht : ∀ t ∈ tt, c ∉ t.toList) (hss : ss ≠ []) (htt : tt ≠ [])
    (h : sep.intercalate ss = sep.intercalate tt) : ss = tt := by
  have hsplit : ∀ ls : List String, (∀ l ∈ ls, c ∉ l.toList) → ls ≠ [] →
      List.splitOn c (sep.intercalate ls).toList = ls.map String.toList := by
    intro ls hls hne
    rw [String.toList_intercalate, hsep]
    refine List.splitOn_intercalate c (fun l hl => ?_) (by simpa using hne)
    obtain ⟨s, hs, rfl⟩ := List.mem_map.1 hl
    exact hls s hs
  have hlists : ss.map String.toList = tt.map String.toList := by
    rw [← hsplit ss hs hss, ← hsplit tt ht htt, h]
  exact List.map_injective_iff.2 (fun _ _ => String.toList_inj.1) hlists

/-- A rendering that is injective on what two lists hold is injective on the lists. -/
theorem map_inj_of_mem {α β : Type} {f : α → β} {l l' : List α}
    (hf : ∀ a ∈ l, ∀ a' ∈ l', f a = f a' → a = a') (h : l.map f = l'.map f) : l = l' := by
  induction l generalizing l' with
  | nil => exact (List.map_eq_nil_iff.1 h.symm).symm
  | cons a l ih =>
      cases l' with
      | nil => exact absurd h (by simp)
      | cons a' l' =>
          obtain ⟨hhead, htail⟩ := List.cons.inj h
          obtain rfl := hf a List.mem_cons_self a' List.mem_cons_self hhead
          rw [ih (fun b hb b' hb' => hf b (List.mem_cons_of_mem _ hb) b' (List.mem_cons_of_mem _ hb'))
            htail]

/-! ## Integers -/

theorem isDigit_of_mem_repr {n : ℕ} {c : Char} (h : c ∈ n.repr.toList) : c.isDigit = true := by
  rw [Nat.toList_repr] at h
  exact Nat.isDigit_of_mem_toDigits (by decide) (by decide) h

theorem dash_notMem_repr (n : ℕ) : '-' ∉ n.repr.toList :=
  fun h => absurd (isDigit_of_mem_repr h) (by decide)

theorem repr_toList_ne_nil (n : ℕ) : n.repr.toList ≠ [] := by
  rw [Nat.toList_repr]
  exact Nat.toDigits_ne_nil

theorem repr_inj {m n : ℕ} (h : m.repr.toList = n.repr.toList) : m = n := by
  rw [Nat.toList_repr, Nat.toList_repr] at h
  simpa using congrArg (fun digits => Nat.ofDigitChars 10 digits 0) h

/-- The text of an integer is a sign and digits. -/
theorem notMem_toString {n : ℤ} {c : Char} (hdash : c ≠ '-') (hdigit : c.isDigit = false) :
    c ∉ (toString n).toList := by
  intro h
  cases n with
  | ofNat m => exact absurd (isDigit_of_mem_repr h) (by simp [hdigit])
  | negSucc m =>
      have hmem : c ∈ '-' :: (m + 1).repr.toList := by
        simpa [toString, Int.repr] using h
      rcases List.mem_cons.1 hmem with hc | hc
      · exact hdash hc
      · exact absurd (isDigit_of_mem_repr hc) (by simp [hdigit])

theorem toString_ofNat_toList (m : ℕ) : (toString (Int.ofNat m)).toList = m.repr.toList := rfl

theorem toString_negSucc_toList (m : ℕ) :
    (toString (Int.negSucc m)).toList = '-' :: (m + 1).repr.toList := by
  simp [toString, Int.repr]

/-- The text of a natural number does not begin with a minus sign. -/
theorem repr_append_ne {m : ℕ} {l r : List Char} : m.repr.toList ++ l ≠ '-' :: r := by
  intro h
  cases hdigits : m.repr.toList with
  | nil => exact repr_toList_ne_nil m hdigits
  | cons d rest =>
      rw [hdigits] at h
      have hd : d = '-' := (List.cons.inj h).1
      exact dash_notMem_repr m (by simp [hdigits, hd])

theorem toString_int_inj {m n : ℤ} (h : toString m = toString n) : m = n := by
  have h := congrArg String.toList h
  cases m with
  | ofNat a =>
      cases n with
      | ofNat b => rw [repr_inj h]
      | negSucc b =>
          rw [toString_ofNat_toList, toString_negSucc_toList, ← List.append_nil a.repr.toList] at h
          exact absurd h repr_append_ne
  | negSucc a =>
      cases n with
      | ofNat b =>
          rw [toString_ofNat_toList, toString_negSucc_toList, ← List.append_nil b.repr.toList] at h
          exact absurd h.symm repr_append_ne
      | negSucc b =>
          rw [toString_negSucc_toList, toString_negSucc_toList] at h
          have := repr_inj (List.cons.inj h).2
          omega

/-- `first-last` is read back, whatever the signs. -/
theorem dashed_inj {a b a' b' : ℤ}
    (h : toString a ++ "-" ++ toString b = toString a' ++ "-" ++ toString b') : a = a' ∧ b = b' := by
  have hlists : (toString a).toList ++ '-' :: (toString b).toList =
      (toString a').toList ++ '-' :: (toString b').toList := by
    simpa using congrArg String.toList h
  cases a with
  | ofNat m =>
      cases a' with
      | ofNat n =>
          rw [toString_ofNat_toList, toString_ofNat_toList] at hlists
          obtain ⟨hfirst, hrest⟩ := append_cons_inj (dash_notMem_repr m) (dash_notMem_repr n) hlists
          exact ⟨by rw [repr_inj hfirst], toString_int_inj (String.toList_inj.1 hrest)⟩
      | negSucc n =>
          rw [toString_ofNat_toList, toString_negSucc_toList, List.cons_append] at hlists
          exact absurd hlists repr_append_ne
  | negSucc m =>
      cases a' with
      | ofNat n =>
          rw [toString_ofNat_toList, toString_negSucc_toList, List.cons_append] at hlists
          exact absurd hlists.symm repr_append_ne
      | negSucc n =>
          rw [toString_negSucc_toList, toString_negSucc_toList, List.cons_append, List.cons_append]
            at hlists
          obtain ⟨hfirst, hrest⟩ := append_cons_inj (dash_notMem_repr (m + 1))
            (dash_notMem_repr (n + 1)) (List.cons.inj hlists).2
          have := repr_inj hfirst
          exact ⟨by omega, toString_int_inj (String.toList_inj.1 hrest)⟩

/-! ## Sorting by a key -/

variable {α β : Type} [LinearOrder β]

/-- The order a key induces. -/
def keyLe (key : α → β) (a b : α) : Prop := key a ≤ key b

instance (key : α → β) : DecidableRel (keyLe key) :=
  fun a b => inferInstanceAs (Decidable (key a ≤ key b))

instance (key : α → β) : Std.Total (keyLe key) := ⟨fun a b => le_total (key a) (key b)⟩

instance (key : α → β) : IsTrans α (keyLe key) := ⟨fun _ _ _ hab hbc => le_trans hab hbc⟩

/-- Sorting by an injective key gives one list for each multiset. -/
theorem insertionSort_keyLe_eq_iff {key : α → β} (hkey : Function.Injective key) {l l' : List α} :
    l.insertionSort (keyLe key) = l'.insertionSort (keyLe key) ↔ l.Perm l' := by
  constructor
  · intro h
    exact (List.perm_insertionSort (keyLe key) l).symm.trans (h ▸ List.perm_insertionSort (keyLe key) l')
  · intro h
    refine List.Perm.eq_of_pairwise (fun a b _ _ hab hba => hkey (le_antisymm hab hba))
      (List.pairwise_insertionSort _ l) (List.pairwise_insertionSort _ l') ?_
    exact (List.perm_insertionSort (keyLe key) l).trans
      (h.trans (List.perm_insertionSort (keyLe key) l').symm)

end Millpond
