import Mathlib.Data.List.Forall2

set_option autoImplicit false

/-! # Programs that may fail with an error

The rules for `Except` programs: what a sequence, a `mapM` and a `foldlM` that succeeded went
through. -/

namespace Millpond

variable {ε α β : Type}

theorem bind_eq_ok {x : Except ε α} {f : α → Except ε β} {b : β} :
    x >>= f = .ok b ↔ ∃ a, x = .ok a ∧ f a = .ok b := by
  cases x with
  | error e =>
      constructor
      · intro h
        cases h
      · rintro ⟨_, h, _⟩
        cases h
  | ok a =>
      constructor
      · exact fun h => ⟨a, rfl, h⟩
      · rintro ⟨a', ha, h⟩
        obtain rfl := Except.ok.inj ha
        exact h

theorem ok_bind (a : α) (f : α → Except ε β) : (Except.ok a >>= f) = f a := rfl

theorem map_eq_ok {x : Except ε α} {f : α → β} {b : β} :
    x.map f = .ok b ↔ ∃ a, x = .ok a ∧ f a = b := by
  cases x with
  | error e =>
      constructor
      · intro h
        cases h
      · rintro ⟨_, h, _⟩
        cases h
  | ok a =>
      constructor
      · exact fun h => ⟨a, rfl, Except.ok.inj h⟩
      · rintro ⟨a', ha, rfl⟩
        rw [Except.ok.inj ha]
        rfl

theorem mapError_eq_ok {ε' : Type} {x : Except ε α} {f : ε → ε'} {a : α} :
    x.mapError f = .ok a ↔ x = .ok a := by
  cases x with
  | error e => exact iff_of_false (fun h => by cases h) fun h => by cases h
  | ok a' => exact ⟨fun h => congrArg Except.ok (Except.ok.inj h), fun h => congrArg Except.ok (Except.ok.inj h)⟩

/-- A list of steps that all succeed. -/
theorem mapM_eq_ok_iff {f : α → Except ε β} {l : List α} {r : List β} :
    l.mapM f = .ok r ↔ List.Forall₂ (fun a b => f a = .ok b) l r := by
  induction l generalizing r with
  | nil =>
      rw [List.mapM_nil, List.forall₂_nil_left_iff]
      exact ⟨fun h => (Except.ok.inj h).symm, fun h => h ▸ rfl⟩
  | cons a rest ih =>
      rw [List.mapM_cons, bind_eq_ok]
      constructor
      · rintro ⟨b, hb, h⟩
        obtain ⟨bs, hbs, h⟩ := bind_eq_ok.1 h
        obtain rfl := Except.ok.inj h
        exact .cons hb (ih.1 hbs)
      · rintro (_ | ⟨hb, hbs⟩)
        exact ⟨_, hb, bind_eq_ok.2 ⟨_, ih.2 hbs, rfl⟩⟩

/-- Steps that succeed under a condition, each with one result. -/
theorem mapM_eq_ok_map_iff {f : α → Except ε β} {P : α → Prop} {g : α → β}
    (hf : ∀ a b, f a = .ok b ↔ P a ∧ b = g a) {l : List α} {r : List β} :
    l.mapM f = .ok r ↔ (∀ a ∈ l, P a) ∧ r = l.map g := by
  simp only [mapM_eq_ok_iff, hf, List.forall₂_and_left, eq_comm (b := g _)]
  rw [← List.forall₂_map_left_iff, List.forall₂_eq_eq_eq, eq_comm (a := r)]

/-- Steps that succeed for every element related to one of another list. -/
theorem mapM_of_forall₂ {γ : Type} {f : α → Except ε β} {P : γ → α → Prop} {Q : γ → β → Prop}
    (hstep : ∀ c a, P c a → ∃ b, f a = .ok b ∧ Q c b) {cs : List γ} {l : List α}
    (h : List.Forall₂ P cs l) : ∃ r, l.mapM f = .ok r ∧ List.Forall₂ Q cs r := by
  induction h with
  | nil => exact ⟨[], rfl, .nil⟩
  | cons hP _ ih =>
      obtain ⟨b, hb, hQ⟩ := hstep _ _ hP
      obtain ⟨r, hr, hrest⟩ := ih
      exact ⟨b :: r, mapM_eq_ok_iff.2 (.cons hb (mapM_eq_ok_iff.1 hr)), .cons hQ hrest⟩

/-- Steps that succeed for every element. -/
theorem mapM_of_forall {f : α → Except ε β} {Q : α → β → Prop} {l : List α}
    (h : ∀ a ∈ l, ∃ b, f a = .ok b ∧ Q a b) : ∃ r, l.mapM f = .ok r ∧ List.Forall₂ Q l r := by
  have hself : List.Forall₂ (fun c a => c = a ∧ a ∈ l) l l :=
    List.forall₂_same.2 fun _ ha => ⟨rfl, ha⟩
  refine mapM_of_forall₂ (fun c a hca => ?_) hself
  obtain ⟨rfl, ha⟩ := hca
  exact h c ha

/-- Every step of a `mapM` that succeeded did. -/
theorem ok_of_mapM {f : α → Except ε β} {l : List α} {r : List β} (h : l.mapM f = .ok r) :
    ∀ a ∈ l, ∃ b, f a = .ok b := by
  have hall := mapM_eq_ok_iff.1 h
  clear h
  induction hall with
  | nil => simp
  | cons hb _ ih => exact List.forall_mem_cons.2 ⟨⟨_, hb⟩, ih⟩

/-- A loop that succeeded: what holds of the elements gone by and the state, from one element to the
    next. -/
theorem foldlM_ok_induction {f : β → α → Except ε β} {I : List α → β → Prop}
    (hstep : ∀ done a b b', I done b → f b a = .ok b' → I (done ++ [a]) b') {l : List α} :
    ∀ {done : List α} {b b' : β}, I done b → l.foldlM f b = .ok b' → I (done ++ l) b' := by
  induction l with
  | nil =>
      intro done b b' hI h
      obtain rfl := Except.ok.inj h
      rwa [List.append_nil]
  | cons a rest ih =>
      intro done b b' hI h
      rw [List.foldlM_cons] at h
      obtain ⟨b₁, hb₁, h⟩ := bind_eq_ok.1 h
      have hrest := ih (hstep done a b b₁ hI hb₁) h
      rwa [List.append_assoc] at hrest

end Millpond
