import Millpond.Lib.Rendering
import Millpond.Lib.Trimming
import Millpond.Maintenance.PartitionTuples

set_option autoImplicit false

/-! # Integers that are read back

`int()` reads what `str()` writes, up to 4300 digits. -/

namespace Millpond.Maintenance

/-- An ASCII digit. -/
theorem isDigit_range {c : Char} (h : c.isDigit = true) : 48 ≤ c.toNat ∧ c.toNat < 58 := by
  simp only [Char.isDigit, Bool.and_eq_true, decide_eq_true_eq] at h
  exact ⟨UInt32.le_iff_toNat_le.1 h.1, Nat.lt_succ_of_le (UInt32.le_iff_toNat_le.1 h.2)⟩

theorem digitOf_of_isDigit {c : Char} (h : c.isDigit = true) : digitOf c = some (c.toNat - 48) := by
  have hfind : decimalZeros.find? (fun z => decide (z ≤ c.toNat ∧ c.toNat < z + 10)) = some 48 :=
    List.find?_cons_of_pos (decide_eq_true (isDigit_range h))
  rw [digitOf, hfind]
  rfl

theorem isSpace_of_isDigit {c : Char} (h : c.isDigit = true) : isSpace c = false := by
  obtain ⟨hlow, hhigh⟩ := isDigit_range h
  simp only [isSpace, List.any_cons, List.any_nil, Bool.or_false, Bool.or_eq_false_iff,
    beq_eq_false_iff_ne]
  omega

theorem isIntSpace_eq_false {c : Char} (h : isSpace c = false) : isIntSpace c = false := by
  simp [isIntSpace, h]

/-- What `str.strip` leaves alone, so does `int()`. -/
theorem trimmed_isIntSpace {text : List Char} (h : Trimmed isSpace text) : Trimmed isIntSpace text :=
  ⟨fun c hc => isIntSpace_eq_false (h.head c hc), fun c hc => isIntSpace_eq_false (h.last c hc)⟩

theorem trimmed_repr (n : ℕ) : Trimmed isSpace n.repr.toList :=
  trimmed_of_forall fun _ hc => isSpace_of_isDigit (isDigit_of_mem_repr hc)

theorem readDigits_digits {text : List Char} (hall : ∀ c ∈ text, c.isDigit = true)
    {afterDigit : Bool} (hne : text ≠ [] ∨ afterDigit = true) (acc : ℕ) :
    readDigits afterDigit acc text = some (Nat.ofDigitChars 10 text acc) := by
  induction text generalizing afterDigit acc with
  | nil =>
      rw [readDigits, if_pos (hne.resolve_left (fun h => h rfl))]
      rfl
  | cons c rest ih =>
      rw [readDigits, digitOf_of_isDigit (hall c List.mem_cons_self), Nat.ofDigitChars_cons,
        Nat.mul_comm 10 acc]
      exact ih (fun d hd => hall d (List.mem_cons_of_mem _ hd)) (Or.inr rfl) _

/-- `int()` on a text of digits. -/
theorem pyInt_repr_eq (n : ℕ) :
    pyInt n.repr = if 4300 < n.repr.length then none else some (n : ℤ) := by
  have hdigit : ∀ c ∈ n.repr.toList, c.isDigit = true := fun c => isDigit_of_mem_repr
  have htext : ((n.repr.toList.dropWhile isIntSpace).reverse.dropWhile isIntSpace).reverse =
      n.repr.toList := (trimmed_isIntSpace (trimmed_repr n)).trim_eq
  have hsign : ∀ c, c.isDigit = false → n.repr.toList.head? ≠ some c := by
    intro c hc hhead
    rw [hdigit c (List.mem_of_head? hhead)] at hc
    cases hc
  have hunsigned : ¬ (n.repr.toList.head? = some '-' ∨ n.repr.toList.head? = some '+') :=
    not_or.2 ⟨hsign '-' (by decide), hsign '+' (by decide)⟩
  have hfilter : n.repr.toList.filter (fun c => (digitOf c).isSome) = n.repr.toList :=
    List.filter_eq_self.2 fun c hc => by rw [digitOf_of_isDigit (hdigit c hc)]; rfl
  have hlength : n.repr.toList.length = n.repr.length := String.length_toList
  unfold pyInt
  simp only [htext, if_neg hunsigned, if_neg (hsign '-' (by decide)), hfilter, hlength]
  rw [readDigits_digits hdigit (Or.inl (repr_toList_ne_nil n)), Nat.toList_repr,
    Nat.ofDigitChars_ten_toDigits]
  rfl

end Millpond.Maintenance
