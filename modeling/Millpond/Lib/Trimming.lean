import Mathlib.Data.List.DropRight

set_option autoImplicit false

/-! # Trimmed lists

What `strip` leaves of a text: a list without the elements of a kind at its two ends. It is determined
by where it stands between them. -/

namespace Millpond

variable {α : Type} {p : α → Bool} {l : List α}

/-- The list without what satisfies `p` at its ends. -/
def trim (p : α → Bool) (l : List α) : List α := (l.dropWhile p).rdropWhile p

/-- Neither end satisfies `p`. -/
structure Trimmed (p : α → Bool) (l : List α) : Prop where
  head : ∀ c, l.head? = some c → p c = false
  last : ∀ c, l.getLast? = some c → p c = false

/-- Without any `p` in it, a list is trimmed. -/
theorem trimmed_of_forall (h : ∀ c ∈ l, p c = false) : Trimmed p l :=
  ⟨fun _ hc => h _ (List.mem_of_head? hc), fun _ hc => h _ (List.mem_of_getLast? hc)⟩

/-- What `trim` takes off. -/
theorem exists_trim (p : α → Bool) (l : List α) : ∃ a b, l = a ++ trim p l ++ b ∧
    (∀ c ∈ a, p c = true) ∧ ∀ c ∈ b, p c = true := by
  refine ⟨l.takeWhile p, (l.dropWhile p).rtakeWhile p, ?_, fun c => List.mem_takeWhile_imp,
    fun c => List.mem_rtakeWhile_imp⟩
  rw [List.append_assoc, trim, List.rdropWhile_append_rtakeWhile, List.takeWhile_append_dropWhile]

theorem trimmed_trim (p : α → Bool) (l : List α) : Trimmed p (trim p l) := by
  constructor
  · intro c hc
    -- the first element that is kept is the first that `dropWhile` keeps
    obtain ⟨rest, hrest⟩ := List.rdropWhile_prefix (p := p) (l.dropWhile p)
    have hhead : (l.dropWhile p).head? = some c := by
      rw [← hrest, List.head?_append]
      simp only [trim] at hc
      rw [hc]
      rfl
    have hnot := List.head?_dropWhile_not p l
    rw [hhead] at hnot
    exact hnot
  · intro c hc
    have hne : trim p l ≠ [] := by
      intro hnil
      rw [hnil] at hc
      cases hc
    have hlast := List.rdropWhile_last_not p (l.dropWhile p) hne
    rw [List.getLast?_eq_some_getLast hne] at hc
    obtain rfl := Option.some.inj hc
    simpa [trim] using hlast

/-- A trimmed list is what is left of it between two runs of `p`. -/
theorem trim_append {a b t : List α} (ha : ∀ c ∈ a, p c = true) (hb : ∀ c ∈ b, p c = true)
    (ht : Trimmed p t) : trim p (a ++ t ++ b) = t := by
  unfold trim
  rw [List.append_assoc, List.dropWhile_append_of_pos ha]
  cases t with
  | nil =>
      rw [List.nil_append, List.dropWhile_eq_nil_iff.2 hb]
      rfl
  | cons c rest =>
      have hc : p c = false := ht.head c rfl
      rw [List.cons_append, List.dropWhile_cons_of_neg (by rw [hc]; decide), ← List.cons_append]
      have hdrop : ∀ (front back : List α), (∀ d ∈ back, p d = true) →
          (front ++ back).rdropWhile p = front.rdropWhile p := by
        intro front back hback
        rw [List.rdropWhile, List.reverse_append,
          List.dropWhile_append_of_pos fun d hd => hback d (List.mem_reverse.1 hd), ← List.rdropWhile]
      rw [hdrop _ _ hb, List.rdropWhile_eq_self_iff]
      intro hne
      rw [ht.last _ (List.getLast?_eq_some_getLast hne)]
      decide

theorem Trimmed.trim_eq (h : Trimmed p l) : trim p l = l := by
  have happend := trim_append (a := []) (b := []) (by simp) (by simp) h
  simpa using happend

theorem trim_subset (p : α → Bool) (l : List α) : trim p l ⊆ l := by
  obtain ⟨a, b, hl, -, -⟩ := exists_trim p l
  intro c hc
  rw [hl]
  exact List.mem_append_left _ (List.mem_append_right _ hc)

end Millpond
