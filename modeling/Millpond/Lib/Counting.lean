import Millpond.Lib.Prog

set_option autoImplicit false

/-! # Programs that count

A program beside which counters are incremented. Counting is no part of what the program does: with
the counts forgotten it is the program it was made from. -/

namespace Millpond.Counting

open Prog

variable {ε σ κ α β : Type}

/-- A program that counts `κ`s, newest first. -/
abbrev Metered (ε σ κ : Type) := EStateM ε (σ × List κ)

/-- A program that counts nothing. -/
def uncounted (x : EStateM ε σ α) : Metered ε σ κ α := zoom Prod.fst (fun s p => (s, p.2)) x

/-- Increment these counters. -/
def count (ks : List κ) : Metered ε σ κ PUnit := modify fun p => (p.1, ks ++ p.2)

variable {Q : α → σ × List κ → Prop} {E : ε → σ × List κ → Prop}

@[simp] theorem wp_uncounted (x : EStateM ε σ α) (s : σ) (counts : List κ) :
    wp (uncounted x) Q E (s, counts) ↔
      wp x (fun a t => Q a (t, counts)) (fun e t => E e (t, counts)) s := by
  unfold uncounted
  rw [wp_zoom]

@[simp] theorem wp_count (ks : List κ) {Q : PUnit → σ × List κ → Prop} :
    wp (count ks : Metered ε σ κ PUnit) Q E = fun p => Q ⟨⟩ (p.1, ks ++ p.2) := rfl

/-! ## Forgetting the counts -/

/-- A result without its counts. -/
def forget : EStateM.Result ε (σ × List κ) α → EStateM.Result ε σ α
  | .ok a p => .ok a p.1
  | .error e p => .error e p.1

/-- Without its counts, `x` is `y`. -/
def Erases (x : Metered ε σ κ α) (y : EStateM ε σ α) : Prop :=
  ∀ s counts, forget (x (s, counts)) = y s

theorem erases_uncounted (x : EStateM ε σ α) : Erases (uncounted x : Metered ε σ κ α) x := by
  intro s counts
  unfold uncounted zoom
  cases x s with
  | ok a t => rfl
  | error e t => rfl

theorem erases_pure (a : α) : Erases (pure a : Metered ε σ κ α) (pure a) := fun _ _ => rfl

theorem erases_throw (e : ε) : Erases (throw e : Metered ε σ κ α) (throw e) := fun _ _ => rfl

theorem Erases.bind {x : Metered ε σ κ α} {y : EStateM ε σ α} {f : α → Metered ε σ κ β}
    {g : α → EStateM ε σ β} (hx : Erases x y) (hf : ∀ a, Erases (f a) (g a)) :
    Erases (x >>= f) (y >>= g) := by
  intro s counts
  have h := hx s counts
  show forget (EStateM.bind x f (s, counts)) = EStateM.bind y g s
  unfold EStateM.bind
  cases hr : x (s, counts) with
  | ok a p =>
      rw [hr] at h
      rw [← h]
      exact hf a p.1 p.2
  | error e p =>
      rw [hr] at h
      rw [← h]
      rfl

theorem Erases.count_bind {x : Metered ε σ κ α} {y : EStateM ε σ α} (ks : List κ)
    (hx : Erases x y) : Erases (count ks >>= fun _ => x) y :=
  fun s counts => hx s (ks ++ counts)

/-- A program that only counts. -/
theorem erases_count (ks : List κ) : Erases (count ks : Metered ε σ κ PUnit) (pure ⟨⟩) :=
  fun _ _ => rfl

theorem Erases.bind_erased {x : Metered ε σ κ PUnit} {y : EStateM ε σ PUnit}
    {f : PUnit → Metered ε σ κ PUnit} (hx : Erases x y) (hf : ∀ a, Erases (f a) (pure ⟨⟩)) :
    Erases (x >>= f) y := by
  have h := hx.bind hf
  rwa [bind_pure_unit] at h

theorem Erases.get_bind {f : σ × List κ → Metered ε σ κ α} {g : σ → EStateM ε σ α}
    (hf : ∀ s counts, Erases (f (s, counts)) (g s)) : Erases (get >>= f) (get >>= g) :=
  fun s counts => hf s counts s counts

theorem Erases.tryCatch {x : Metered ε σ κ α} {y : EStateM ε σ α} {f : ε → Metered ε σ κ α}
    {g : ε → EStateM ε σ α} (hx : Erases x y) (hf : ∀ e, Erases (f e) (g e)) :
    Erases (tryCatch x f) (MonadExcept.tryCatch y g) := by
  intro s counts
  have h := hx s counts
  show forget (EStateM.tryCatch x f (s, counts)) = EStateM.tryCatch y g s
  unfold EStateM.tryCatch
  cases hr : x (s, counts) with
  | ok a p =>
      rw [hr] at h
      rw [← h]
      rfl
  | error e p =>
      rw [hr] at h
      rw [← h]
      exact hf e p.1 p.2

theorem Erases.ite {c : Prop} [Decidable c] {x x' : Metered ε σ κ α} {y y' : EStateM ε σ α}
    (hx : Erases x y) (hx' : Erases x' y') :
    Erases (if c then x else x') (if c then y else y') := by
  split
  · exact hx
  · exact hx'

/-- What is known of the program without counts holds with them. -/
theorem Erases.wp {x : Metered ε σ κ α} {y : EStateM ε σ α} {P : α → σ → Prop} {F : ε → σ → Prop}
    (h : Erases x y) {s : σ} (hy : Prog.wp y P F s) (counts : List κ) :
    Prog.wp x (fun a p => P a p.1) (fun e p => F e p.1) (s, counts) := by
  have hr := h s counts
  unfold Prog.wp at hy ⊢
  rw [← hr] at hy
  cases hx : x (s, counts) with
  | ok a p => rwa [hx] at hy
  | error e p => rwa [hx] at hy

/-- What is known of the counted program, with the run of the program without counts. -/
theorem Erases.wp_run {x : Metered ε σ κ α} {y : EStateM ε σ α} (h : Erases x y) {s : σ}
    {counts : List κ} {Q : α → σ × List κ → Prop}
    (hx : Prog.wp x Q (fun _ _ => True) (s, counts)) :
    Prog.wp x (fun a p => y s = .ok a p.1 ∧ Q a p) (fun _ _ => True) (s, counts) :=
  wp_mono (wp_and (h.wp (Prog.wp_run y s) counts) hx) (fun _ _ h => h) (fun _ _ _ => trivial)

/-! ## Exact counts -/

/-- From any state, the program adds to the counters the increments that `P` names for that state, and
    no others. -/
def Counts (x : Metered ε σ κ α) (P : σ → κ → Prop) : Prop :=
  ∀ s counts, Prog.wp x (fun _ p => ∀ k, k ∈ p.2 ↔ k ∈ counts ∨ P s k) (fun _ _ => True) (s, counts)

theorem counts_pure (a : α) : Counts (pure a : Metered ε σ κ α) fun _ _ => False :=
  fun _ _ _ => (or_false _).symm ▸ Iff.rfl

theorem counts_throw (e : ε) (P : σ → κ → Prop) : Counts (throw e : Metered ε σ κ α) P :=
  fun _ _ => trivial

theorem Counts.congr {x : Metered ε σ κ α} {P P' : σ → κ → Prop} (h : Counts x P)
    (hP : ∀ s k, P s k ↔ P' s k) : Counts x P' := fun s counts =>
  wp_mono (h s counts) (fun _ _ h' k => (h' k).trans (or_congr Iff.rfl (hP s k))) (fun _ _ h' => h')

theorem Counts.count_bind {x : Metered ε σ κ α} {P : σ → κ → Prop} (ks : List κ) (hx : Counts x P) :
    Counts (count ks >>= fun _ => x) fun s k => k ∈ ks ∨ P s k := by
  intro s counts
  rw [wp_bind, wp_count]
  refine wp_mono (hx s _) (fun _ _ h k => (h k).trans ?_) (fun _ _ h => h)
  rw [List.mem_append, or_comm (a := k ∈ ks), or_assoc]

theorem Counts.bind {x : Metered ε σ κ α} {y : EStateM ε σ α} {f : α → Metered ε σ κ β}
    {P : σ → κ → Prop} {Q : α → σ → κ → Prop} (herases : Erases x y) (hx : Counts x P)
    (hf : ∀ a, Counts (f a) (Q a)) :
    Counts (x >>= f) fun s k => P s k ∨ ∃ a s', y s = .ok a s' ∧ Q a s' k := by
  intro s counts
  rw [wp_bind]
  refine wp_mono (herases.wp_run (hx s counts)) ?_ (fun _ _ h => h)
  rintro a p ⟨hy, hcounts⟩
  refine wp_mono (hf a p.1 p.2) (fun b q h k => ?_) (fun _ _ h => h)
  rw [h k, hcounts k, or_assoc]
  have hrun : Q a p.1 k ↔ ∃ a' s', y s = .ok a' s' ∧ Q a' s' k := by
    constructor
    · exact fun hQ => ⟨a, p.1, hy, hQ⟩
    · rintro ⟨a', s', hy', hQ⟩
      rw [hy] at hy'
      obtain ⟨rfl, rfl⟩ := EStateM.Result.ok.inj hy'
      exact hQ
  rw [hrun]

/-- A loop counts what its turns count where it comes to them. -/
theorem counts_of_isLoop {γ : Type} {turn : α → EStateM ε σ β} {counted : α → Metered ε σ κ β}
    {put : α → β → γ → γ} {start : γ} {loop : List α → Metered ε σ κ γ}
    (h : IsLoop counted put start loop) (herases : ∀ x, Erases (counted x) (turn x))
    {P : α → σ → κ → Prop} (hturn : ∀ x, Counts (counted x) (P x)) (xs : List α) :
    Counts (loop xs) fun s k => ∃ x s', Comes turn xs s x s' ∧ P x s' k := by
  induction xs with
  | nil =>
      rw [h.nil]
      refine (counts_pure start).congr fun s k => ⟨False.elim, ?_⟩
      rintro ⟨x, s', hcomes, -⟩
      exact absurd hcomes.mem List.not_mem_nil
  | cons x xs ih =>
      rw [h.cons]
      have hrest : ∀ b, Counts (loop xs >>= fun c => pure (put x b c)) fun s k =>
          ∃ y s', Comes turn xs s y s' ∧ P y s' k := by
        intro b s counts
        rw [wp_bind]
        exact wp_mono (ih s counts) (fun _ _ h => h) (fun _ _ h => h)
      refine (Counts.bind (herases x) (hturn x) hrest).congr fun s k => ?_
      constructor
      · rintro (hP | ⟨b, s', hb, y, s'', hcomes, hP⟩)
        · exact ⟨x, s, .here x xs s, hP⟩
        · exact ⟨y, s'', .later hb hcomes, hP⟩
      · rintro ⟨y, s'', hcomes, hP⟩
        cases hcomes with
        | here => exact Or.inl hP
        | later took comes => exact Or.inr ⟨_, _, took, y, s'', comes, hP⟩

end Millpond.Counting
