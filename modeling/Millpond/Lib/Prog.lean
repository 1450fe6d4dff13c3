import Mathlib.Data.Nat.Notation

set_option autoImplicit false

/-! # Programs with state and exceptions

The rules this development reasons with about `EStateM ε σ` programs: a weakest precondition with
one postcondition for the normal end and one for the exception, and the two loops such programs
are written with. State changes made before an exception stay (`EStateM` does not roll back). -/

namespace Millpond.Prog

universe u

variable {ε σ α β : Type u}

/-! ## Weakest preconditions -/

/-- From `s`, the program ends normally in `Q` or with an exception in `E`. -/
def wp (x : EStateM ε σ α) (Q : α → σ → Prop) (E : ε → σ → Prop) (s : σ) : Prop :=
  match x s with
  | .ok a s' => Q a s'
  | .error e s' => E e s'

variable {Q Q' : α → σ → Prop} {E E' : ε → σ → Prop} {s : σ}

@[simp] theorem wp_pure (a : α) : wp (pure a : EStateM ε σ α) Q E = Q a := rfl

@[simp] theorem wp_throw (e : ε) : wp (throw e : EStateM ε σ α) Q E = E e := rfl

@[simp] theorem wp_get {Q : σ → σ → Prop} :
    wp (get : EStateM ε σ σ) Q E = fun s => Q s s := rfl

theorem get_bind_apply (f : σ → EStateM ε σ α) (s : σ) :
    ((get : EStateM ε σ σ) >>= f) s = f s s := rfl

@[simp] theorem wp_modify {Q : PUnit → σ → Prop} (f : σ → σ) :
    wp (modify f : EStateM ε σ PUnit) Q E = fun s => Q ⟨⟩ (f s) := rfl

@[simp] theorem wp_bind (x : EStateM ε σ α) (f : α → EStateM ε σ β) {Q : β → σ → Prop} :
    wp (x >>= f) Q E = wp x (fun a => wp (f a) Q E) E := by
  funext s
  show wp (EStateM.bind x f) Q E s = _
  unfold wp EStateM.bind
  cases x s <;> rfl

@[simp] theorem wp_map (f : α → β) (x : EStateM ε σ α) {Q : β → σ → Prop} :
    wp (f <$> x) Q E = wp x (fun a => Q (f a)) E := by
  funext s
  show wp (EStateM.map f x) Q E s = _
  unfold wp EStateM.map
  cases x s <;> rfl

@[simp] theorem wp_tryCatch (x : EStateM ε σ α) (handle : ε → EStateM ε σ α) :
    wp (tryCatch x handle) Q E = wp x Q (fun e => wp (handle e) Q E) := by
  funext s
  show wp (EStateM.tryCatch x handle) Q E s = _
  unfold wp EStateM.tryCatch
  cases x s <;> rfl

theorem wp_ite (c : Prop) [Decidable c] (x y : EStateM ε σ α) :
    wp (if c then x else y) Q E = fun s => (c → wp x Q E s) ∧ (¬ c → wp y Q E s) := by
  funext s
  split <;> simp [*]

/-- Weakening both postconditions. -/
theorem wp_mono {x : EStateM ε σ α} (h : wp x Q E s) (hQ : ∀ a s', Q a s' → Q' a s')
    (hE : ∀ e s', E e s' → E' e s') : wp x Q' E' s := by
  unfold wp at h ⊢
  cases hx : x s with
  | ok a s' => rw [hx] at h; exact hQ a s' h
  | error e s' => rw [hx] at h; exact hE e s' h

/-- What is known of a run that ended normally. -/
theorem wp_of_ok {x : EStateM ε σ α} {a : α} {s' : σ} (h : x s = .ok a s') : wp x Q E s ↔ Q a s' := by
  unfold wp
  rw [h]

/-- What is known of a run that raised. -/
theorem wp_of_error {x : EStateM ε σ α} {e : ε} {s' : σ} (h : x s = .error e s') :
    wp x Q E s ↔ E e s' := by
  unfold wp
  rw [h]

/-- A program ends as it does. -/
theorem wp_run (x : EStateM ε σ α) (s : σ) :
    wp x (fun a s' => x s = .ok a s') (fun e s' => x s = .error e s') s := by
  unfold wp
  cases x s with
  | ok a s' => rfl
  | error e s' => rfl

theorem bind_apply_ok {x : EStateM ε σ α} {f : α → EStateM ε σ β} {a : α} {s' : σ}
    (h : x s = .ok a s') : (x >>= f) s = f a s' := by
  show EStateM.bind x f s = f a s'
  unfold EStateM.bind
  rw [h]

theorem bind_apply_error {x : EStateM ε σ α} {f : α → EStateM ε σ β} {e : ε} {s' : σ}
    (h : x s = .error e s') : (x >>= f) s = .error e s' := by
  show EStateM.bind x f s = .error e s'
  unfold EStateM.bind
  rw [h]

theorem wp_true (x : EStateM ε σ α) (s : σ) : wp x (fun _ _ => True) (fun _ _ => True) s := by
  unfold wp
  cases x s <;> trivial

theorem wp_and {x : EStateM ε σ α} (h : wp x Q E s) (h' : wp x Q' E' s) :
    wp x (fun a s' => Q a s' ∧ Q' a s') (fun e s' => E e s' ∧ E' e s') s := by
  unfold wp at h h' ⊢
  cases hx : x s with
  | ok a s' => rw [hx] at h h'; exact ⟨h, h'⟩
  | error e s' => rw [hx] at h h'; exact ⟨h, h'⟩

instance [∀ a t, Decidable (Q a t)] [∀ e t, Decidable (E e t)] (x : EStateM ε σ α) :
    Decidable (wp x Q E s) :=
  match h : x s with
  | .ok a t => decidable_of_iff (Q a t) (by unfold wp; rw [h])
  | .error e t => decidable_of_iff (E e t) (by unfold wp; rw [h])

/-- The state a program leaves, however it ends. -/
def final (x : EStateM ε σ α) (s : σ) : σ :=
  match x s with
  | .ok _ s' => s'
  | .error _ s' => s'

theorem final_of_wp {P : σ → Prop} {x : EStateM ε σ α}
    (h : wp x (fun _ => P) (fun _ => P) s) : P (final x s) := by
  unfold wp at h
  unfold final
  cases hx : x s with
  | ok a s' => rw [hx] at h; exact h
  | error e s' => rw [hx] at h; exact h

/-! ## A program on a part of the state -/

variable {τ : Type u}

/-- Run `x` on the part of the state that `read` and `write` name. -/
def zoom (read : σ → τ) (write : τ → σ → σ) (x : EStateM ε τ α) : EStateM ε σ α := fun s =>
  match x (read s) with
  | .ok a t => .ok a (write t s)
  | .error e t => .error e (write t s)

theorem wp_zoom (read : σ → τ) (write : τ → σ → σ) (x : EStateM ε τ α) :
    wp (zoom read write x) Q E =
      fun s => wp x (fun a t => Q a (write t s)) (fun e t => E e (write t s)) (read s) := by
  funext s
  unfold wp zoom
  cases x (read s) <;> rfl

/-! ## Relations every outcome respects -/

/-- However the program ends, `R` relates the state it started in to the state it left. -/
def Within (R : σ → σ → Prop) (x : EStateM ε σ α) : Prop :=
  ∀ s, wp x (fun _ => R s) (fun _ => R s) s

/-- Sequencing composes the relations; the first one alone must do for an early exception. -/
theorem Within.bind {R₁ R₂ R : σ → σ → Prop} {x : EStateM ε σ α} {f : α → EStateM ε σ β}
    (hx : Within R₁ x) (hf : ∀ a, Within R₂ (f a)) (hearly : ∀ s s', R₁ s s' → R s s')
    (hcomp : ∀ s s' s'', R₁ s s' → R₂ s' s'' → R s s'') : Within R (x >>= f) := by
  intro s
  rw [wp_bind]
  exact wp_mono (hx s)
    (fun a s' h => wp_mono (hf a s') (fun _ _ h' => hcomp _ _ _ h h') (fun _ _ h' => hcomp _ _ _ h h'))
    (fun _ s' h => hearly s s' h)

theorem Within.weaken {R R' : σ → σ → Prop} {x : EStateM ε σ α} (hx : Within R x)
    (h : ∀ s s', R s s' → R' s s') : Within R' x :=
  fun s => wp_mono (hx s) (fun _ s' hs => h s s' hs) (fun _ s' hs => h s s' hs)

theorem Within.ite {R : σ → σ → Prop} {c : Prop} [Decidable c] {x y : EStateM ε σ α}
    (hx : Within R x) (hy : Within R y) : Within R (if c then x else y) := by
  split
  · exact hx
  · exact hy

/-! ## Outcomes along a relation -/

/-- However the program ends, `G` relates the state it started in to the state it left, and its
    normal end has `Q`. -/
def Along (G : σ → σ → Prop) (x : EStateM ε σ α) (Q : α → σ → Prop) (s : σ) : Prop :=
  wp x (fun a t => G s t ∧ Q a t) (fun _ t => G s t) s

section Along

variable {G : σ → σ → Prop} {P : α → σ → Prop} {x : EStateM ε σ α}

theorem Along.mono (h : Along G x P s) (hPQ : ∀ a t, G s t → P a t → Q a t) : Along G x Q s :=
  wp_mono h (fun a t h => ⟨h.1, hPQ a t h.1 h.2⟩) (fun _ _ h => h)

theorem along_bind (htrans : ∀ s t u, G s t → G t u → G s u) {f : α → EStateM ε σ β}
    {Q : β → σ → Prop} (hx : Along G x P s) (hf : ∀ a t, G s t → P a t → Along G (f a) Q t) :
    Along G (x >>= f) Q s := by
  unfold Along
  rw [wp_bind]
  refine wp_mono hx (fun a t h => ?_) (fun _ _ h => h)
  exact wp_mono (hf a t h.1 h.2) (fun _ _ h' => ⟨htrans _ _ _ h.1 h'.1, h'.2⟩) (fun _ _ h' => htrans _ _ _ h.1 h')

theorem along_get_bind {f : σ → EStateM ε σ β} {Q : β → σ → Prop} (h : Along G (f s) Q s) :
    Along G (get >>= f) Q s := by
  unfold Along
  rw [wp_bind, wp_get]
  exact h

theorem along_tryCatch (htrans : ∀ s t u, G s t → G t u → G s u) {handle : ε → EStateM ε σ α}
    (hx : Along G x Q s) (hhandle : ∀ e t, G s t → Along G (handle e) Q t) :
    Along G (tryCatch x handle) Q s := by
  unfold Along
  rw [wp_tryCatch]
  refine wp_mono hx (fun _ _ h => h) (fun e t h => ?_)
  exact wp_mono (hhandle e t h) (fun _ _ h' => ⟨htrans _ _ _ h h'.1, h'.2⟩) (fun _ _ h' => htrans _ _ _ h h')

theorem along_ite {c : Prop} [Decidable c] {y : EStateM ε σ α} (hx : c → Along G x Q s)
    (hy : ¬ c → Along G y Q s) : Along G (if c then x else y) Q s := by
  split
  · next h => exact hx h
  · next h => exact hy h

theorem along_map {f : α → β} {Q : β → σ → Prop} (hx : Along G x (fun a t => Q (f a) t) s) :
    Along G (f <$> x) Q s := by
  unfold Along
  rw [wp_map]
  exact hx

/-- `G` leads from states of `I` to states of `I`, on the spot and in steps. -/
structure Rely (I : σ → Prop) (G : σ → σ → Prop) : Prop where
  refl : ∀ s, I s → G s s
  trans : ∀ s t u, G s t → G t u → G s u
  target : ∀ s t, G s t → I t

variable {I : σ → Prop}

theorem Rely.pure (hG : Rely I G) (hs : I s) {a : α} (h : Q a s) :
    Along G (Pure.pure a : EStateM ε σ α) Q s := ⟨hG.refl s hs, h⟩

theorem Rely.throw (hG : Rely I G) (hs : I s) (e : ε) :
    Along G (MonadExcept.throw e : EStateM ε σ α) Q s := hG.refl s hs

theorem Rely.bind (hG : Rely I G) {f : α → EStateM ε σ β} {Q : β → σ → Prop} (hx : Along G x P s)
    (hf : ∀ a t, I t → G s t → P a t → Along G (f a) Q t) : Along G (x >>= f) Q s :=
  along_bind hG.trans hx fun a t h => hf a t (hG.target s t h) h

theorem Rely.tryCatch (hG : Rely I G) {handle : ε → EStateM ε σ α} (hx : Along G x Q s)
    (hhandle : ∀ e t, I t → Along G (handle e) Q t) : Along G (MonadExcept.tryCatch x handle) Q s :=
  along_tryCatch hG.trans hx fun e t h => hhandle e t (hG.target s t h)

end Along

/-! ## Loops -/

/-- `while` with a bound: at most `n` iterations of `body`, each after `going` said yes. -/
def whileLoop (going : σ → Bool) (body : EStateM ε σ PUnit) : ℕ → EStateM ε σ PUnit
  | 0 => pure ⟨⟩
  | n + 1 => do
      if going (← get) then
        body
        whileLoop going body n

/-- An invariant the body keeps holds after any number of iterations. -/
theorem wp_whileLoop {going : σ → Bool} {body : EStateM ε σ PUnit} {I : σ → Prop}
    (hbody : ∀ s, I s → going s = true → wp body (fun _ => I) E s) (n : ℕ) :
    ∀ s, I s → wp (whileLoop going body n) (fun _ => I) E s := by
  induction n with
  | zero => exact fun s hI => hI
  | succ n ih =>
      intro s hI
      unfold whileLoop
      simp only [wp_bind, wp_get, wp_ite, wp_pure]
      exact ⟨fun hc => wp_mono (hbody s hI hc) (fun _ s' hI' => ih s' hI') (fun _ _ h => h),
        fun _ => hI⟩

section Over

variable {γ : Type u} {turn : α → EStateM ε σ β} {x : α} {xs : List α} {s' : σ}

/-- A loop with this turn over the list, from the first state, comes to the element in the second. -/
inductive Comes (turn : α → EStateM ε σ β) : List α → σ → α → σ → Prop
  | here (x : α) (rest : List α) (s : σ) : Comes turn (x :: rest) s x s
  | later {y : α} {rest : List α} {s s₁ : σ} {b : β} {x : α} {s' : σ} (took : turn y s = .ok b s₁)
      (comes : Comes turn rest s₁ x s') : Comes turn (y :: rest) s x s'

theorem Comes.mem (h : Comes turn xs s x s') : x ∈ xs := by
  induction h with
  | here => exact List.mem_cons_self
  | later _ _ ih => exact List.mem_cons_of_mem _ ih

/-- What the turns keep holds wherever the loop comes to. -/
theorem Comes.invariant {I : σ → Prop} (hturn : ∀ x s b s₁, I s → turn x s = .ok b s₁ → I s₁)
    (h : Comes turn xs s x s') (hs : I s) : I s' := by
  induction h with
  | here => exact hs
  | later took _ ih => exact ih (hturn _ _ _ _ hs took)

theorem comes_cons {y : α} {rest : List α} {b : β} {s₁ : σ} (took : turn y s = .ok b s₁) :
    Comes turn (y :: rest) s x s' ↔ (x = y ∧ s' = s) ∨ Comes turn rest s₁ x s' := by
  constructor
  · intro h
    cases h with
    | here => exact Or.inl ⟨rfl, rfl⟩
    | later took' comes =>
        obtain ⟨-, rfl⟩ := EStateM.Result.ok.inj (took.symm.trans took')
        exact Or.inr comes
  · rintro (⟨rfl, rfl⟩ | h)
    · exact .here _ _ _
    · exact .later took h

/-- `loop` is `for x in xs`, with what the turns answer put together. -/
structure IsLoop (turn : α → EStateM ε σ β) (put : α → β → γ → γ) (start : γ)
    (loop : List α → EStateM ε σ γ) : Prop where
  nil : loop [] = pure start
  cons : ∀ x xs, loop (x :: xs) = turn x >>= fun b => loop xs >>= fun c => pure (put x b c)

variable {put : α → β → γ → γ} {start : γ} {loop : List α → EStateM ε σ γ}

/-- A loop raises where one of its turns does. -/
theorem IsLoop.raises (h : IsLoop turn put start loop) {e : ε} (hraises : loop xs s = .error e s') :
    ∃ x s₁, Comes turn xs s x s₁ ∧ turn x s₁ = .error e s' := by
  induction xs generalizing s with
  | nil =>
      rw [h.nil] at hraises
      cases hraises
  | cons x xs ih =>
      rw [h.cons] at hraises
      cases hturn : turn x s with
      | error e₁ s₁ =>
          rw [bind_apply_error hturn] at hraises
          obtain ⟨rfl, rfl⟩ := EStateM.Result.error.inj hraises
          exact ⟨x, s, .here x xs s, hturn⟩
      | ok b s₁ =>
          rw [bind_apply_ok hturn] at hraises
          cases hrest : loop xs s₁ with
          | error e₂ s₂ =>
              rw [bind_apply_error hrest] at hraises
              obtain ⟨rfl, rfl⟩ := EStateM.Result.error.inj hraises
              obtain ⟨y, s₃, hcomes, hy⟩ := ih hrest
              exact ⟨y, s₃, .later hturn hcomes, hy⟩
          | ok c s₂ =>
              rw [bind_apply_ok hrest] at hraises
              cases hraises

/-- In a loop that ends, every turn did. -/
theorem IsLoop.took (h : IsLoop turn put start loop) {c : γ} (hends : loop xs s = .ok c s') {s₁ : σ}
    (hcomes : Comes turn xs s x s₁) : ∃ b s₂, turn x s₁ = .ok b s₂ := by
  induction hcomes generalizing c with
  | here x rest s =>
      rw [h.cons] at hends
      cases hturn : turn x s with
      | error e s₁ =>
          rw [bind_apply_error hturn] at hends
          cases hends
      | ok b s₁ => exact ⟨b, s₁, rfl⟩
  | later took _ ih =>
      rw [h.cons, bind_apply_ok took] at hends
      cases hrest : loop _ _ with
      | error e s₂ =>
          rw [bind_apply_error hrest] at hends
          cases hends
      | ok c₁ s₂ =>
          rw [bind_apply_ok hrest] at hends
          obtain ⟨-, rfl⟩ := EStateM.Result.ok.inj hends
          exact ih hrest

/-- A loop that ends came to every element. -/
theorem IsLoop.comes (h : IsLoop turn put start loop) {c : γ} (hends : loop xs s = .ok c s')
    (hx : x ∈ xs) : ∃ s₁, Comes turn xs s x s₁ := by
  induction xs generalizing s c with
  | nil => exact absurd hx List.not_mem_nil
  | cons y ys ih =>
      obtain ⟨b, s₁, hturn⟩ := h.took hends (.here y ys s)
      rcases List.mem_cons.1 hx with rfl | hx
      · exact ⟨s, .here x ys s⟩
      · rw [h.cons, bind_apply_ok hturn] at hends
        cases hrest : loop ys s₁ with
        | error e s₂ =>
            rw [bind_apply_error hrest] at hends
            cases hends
        | ok c₁ s₂ =>
            rw [bind_apply_ok hrest] at hends
            obtain ⟨-, rfl⟩ := EStateM.Result.ok.inj hends
            obtain ⟨s₃, hcomes⟩ := ih hrest hx
            exact ⟨s₃, .later hturn hcomes⟩

/-- What a loop has put together is what its turns answered. -/
theorem IsLoop.gathers (h : IsLoop turn put start loop) {P : γ → Prop} {Q : α → β → Prop}
    (hstart : ¬ P start) (hput : ∀ x b c, P (put x b c) ↔ Q x b ∨ P c) {c : γ}
    (hends : loop xs s = .ok c s') :
    P c ↔ ∃ x s₁ b s₂, Comes turn xs s x s₁ ∧ turn x s₁ = .ok b s₂ ∧ Q x b := by
  induction xs generalizing s c with
  | nil =>
      rw [h.nil] at hends
      obtain ⟨rfl, rfl⟩ := EStateM.Result.ok.inj hends
      refine ⟨fun hP => absurd hP hstart, ?_⟩
      rintro ⟨x, s₁, b, s₂, hcomes, -⟩
      exact absurd hcomes.mem List.not_mem_nil
  | cons x xs ih =>
      rw [h.cons] at hends
      cases hturn : turn x s with
      | error e₁ s₁ =>
          rw [bind_apply_error hturn] at hends
          cases hends
      | ok b s₁ =>
          rw [bind_apply_ok hturn] at hends
          cases hrest : loop xs s₁ with
          | error e₂ s₂ =>
              rw [bind_apply_error hrest] at hends
              cases hends
          | ok c₁ s₂ =>
              rw [bind_apply_ok hrest] at hends
              obtain ⟨rfl, rfl⟩ := EStateM.Result.ok.inj hends
              simp only [hput, ih hrest, comes_cons hturn]
              constructor
              · rintro (hQ | ⟨y, s₃, b', s₄, hcomes, hy, hQ⟩)
                · exact ⟨x, s, b, s₁, Or.inl ⟨rfl, rfl⟩, hturn, hQ⟩
                · exact ⟨y, s₃, b', s₄, Or.inr hcomes, hy, hQ⟩
              · rintro ⟨y, s₃, b', s₄, ⟨rfl, rfl⟩ | hcomes, hy, hQ⟩
                · obtain ⟨rfl, rfl⟩ := EStateM.Result.ok.inj (hturn.symm.trans hy)
                  exact Or.inl hQ
                · exact Or.inr ⟨y, s₃, b', s₄, hcomes, hy, hQ⟩

end Over

/-- `for attempt in range(..)` around a `try`: `again` re-raises, or returns to try once more. -/
def retry (fallThrough : α) (body : ℕ → EStateM ε σ α) (again : ℕ → ε → EStateM ε σ PUnit) :
    (attempt left : ℕ) → EStateM ε σ α
  | _, 0 => pure fallThrough
  | attempt, left + 1 =>
      tryCatch (body attempt) fun e => do
        again attempt e
        retry fallThrough body again (attempt + 1) left

/-- The rule for `retry`: `I` holds before each attempt and the handler restores it; falling
    through after the last attempt is the case `I` must answer for or rule out. -/
theorem wp_retry {fallThrough : α} {body : ℕ → EStateM ε σ α}
    {again : ℕ → ε → EStateM ε σ PUnit} {I : ℕ → σ → Prop} {n : ℕ}
    (hbody : ∀ attempt s, I attempt s →
      wp (body attempt) Q (fun e => wp (again attempt e) (fun _ => I (attempt + 1)) E) s)
    (hfall : ∀ s, I n s → Q fallThrough s) (left : ℕ) :
    ∀ attempt s, attempt + left = n → I attempt s →
      wp (retry fallThrough body again attempt left) Q E s := by
  induction left with
  | zero =>
      rintro attempt s rfl hI
      exact hfall s hI
  | succ left ih =>
      intro attempt s hn hI
      unfold retry
      simp only [wp_tryCatch, wp_bind]
      exact wp_mono (hbody attempt s hI) (fun _ _ h => h)
        (fun _ _ h => wp_mono h (fun _ s' hI' => ih (attempt + 1) s' (by omega) hI')
          (fun _ _ h => h))

end Millpond.Prog
