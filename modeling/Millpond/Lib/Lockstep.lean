import Millpond.Lib.ReadCommitted

set_option autoImplicit false

/-! # Two runs in lockstep

One program started in two states it cannot tell apart: it ends the same way in both, and leaves
states it could not tell apart either. For the sessions of a database the two may differ in the
committed state, as far as the statements of the program do not look. -/

namespace Millpond.Prog

universe u

variable {ε σ α β : Type u} {R : σ → σ → Prop}

/-- The same end, in related states. -/
inductive Alike (R : σ → σ → Prop) : EStateM.Result ε σ α → EStateM.Result ε σ α → Prop where
  | ok (a : α) {s t : σ} (h : R s t) : Alike R (.ok a s) (.ok a t)
  | error (e : ε) {s t : σ} (h : R s t) : Alike R (.error e s) (.error e t)

/-- From related states, the program ends alike. -/
def Lockstep (R : σ → σ → Prop) (x : EStateM ε σ α) : Prop := ∀ s t, R s t → Alike R (x s) (x t)

theorem set_bind_apply (s' : σ) (f : PUnit → EStateM ε σ α) (s : σ) :
    ((set s' : EStateM ε σ PUnit) >>= f) s = f ⟨⟩ s' := rfl

theorem lockstep_pure (a : α) : Lockstep R (pure a : EStateM ε σ α) := fun _ _ h => .ok a h

theorem lockstep_throw (e : ε) : Lockstep R (throw e : EStateM ε σ α) := fun _ _ h => .error e h

theorem lockstep_modify {f : σ → σ} (hf : ∀ s t, R s t → R (f s) (f t)) :
    Lockstep R (modify f : EStateM ε σ PUnit) := fun _ _ h => .ok _ (hf _ _ h)

theorem Lockstep.bind {x : EStateM ε σ α} {f : α → EStateM ε σ β} (hx : Lockstep R x)
    (hf : ∀ a, Lockstep R (f a)) : Lockstep R (x >>= f) := by
  intro s t h
  show Alike R (EStateM.bind x f s) (EStateM.bind x f t)
  unfold EStateM.bind
  have hfirst := hx s t h
  generalize x s = first at hfirst
  generalize x t = second at hfirst
  cases hfirst with
  | ok a h' => exact hf a _ _ h'
  | error e h' => exact .error e h'

theorem Lockstep.map {x : EStateM ε σ α} {f : α → β} (hx : Lockstep R x) :
    Lockstep R (f <$> x) := by
  intro s t h
  show Alike R (EStateM.map f x s) (EStateM.map f x t)
  unfold EStateM.map
  have hfirst := hx s t h
  generalize x s = first at hfirst
  generalize x t = second at hfirst
  cases hfirst with
  | ok a h' => exact .ok (f a) h'
  | error e h' => exact .error e h'

theorem Lockstep.tryCatch {x : EStateM ε σ α} {handle : ε → EStateM ε σ α} (hx : Lockstep R x)
    (hhandle : ∀ e, Lockstep R (handle e)) : Lockstep R (tryCatch x handle) := by
  intro s t h
  show Alike R (EStateM.tryCatch x handle s) (EStateM.tryCatch x handle t)
  unfold EStateM.tryCatch
  have hfirst := hx s t h
  generalize x s = first at hfirst
  generalize x t = second at hfirst
  cases hfirst with
  | ok a h' => exact .ok a h'
  | error e h' => exact hhandle e _ _ h'

theorem Lockstep.ite {c : Prop} [Decidable c] {x y : EStateM ε σ α} (hx : Lockstep R x)
    (hy : Lockstep R y) : Lockstep R (if c then x else y) := by
  split
  · exact hx
  · exact hy

end Millpond.Prog

namespace Millpond.ReadCommitted

open Prog

variable {κ W π ε L α : Type} [Writes W κ] [Raises π ε]

/-- What `E` holds of two states, it holds of them under the same writes. -/
def KeptByWrites (W : Type) [Writes W κ] (E : κ → κ → Prop) : Prop :=
  ∀ (w : W) (c c' : κ), E c c' → E (Writes.apply w c) (Writes.apply w c')

/-- Two sessions that are the same but for committed states that `E` relates. -/
structure Twin (E : κ → κ → Prop) (s t : Session κ W π L) : Prop where
  committed : E s.committed t.committed
  own : s.own = t.own
  others : ∀ n own c c', E c c' → E (s.others n own c) (t.others n own c')
  fates : s.fates = t.fates
  clock : s.clock = t.clock
  commits : (commits s.seen).map Prod.fst = (commits t.seen).map Prod.fst

variable {E : κ → κ → Prop} {s t : Session κ W π L}

theorem overlay_related (hE : KeptByWrites W E) (own : List W) {c c' : κ} (h : E c c') :
    E (overlay own c) (overlay own c') := by
  induction own generalizing c c' with
  | nil => exact h
  | cons w rest ih => exact ih (hE w c c' h)

omit [Writes W κ] in
theorem Twin.next (h : Twin E s t) : E s.next t.next := by
  unfold Session.next
  rw [h.own, h.clock]
  exact h.others _ _ _ _ h.committed

theorem Twin.view (hE : KeptByWrites W E) (h : Twin E s t) :
    E (overlay s.own s.next) (overlay t.own t.next) := by
  rw [h.own]
  exact overlay_related hE _ h.next

theorem Twin.reading (h : Twin E s t) (label : L) :
    Twin E (s.reading label s.next) (t.reading label t.next) :=
  ⟨h.next, h.own, h.others, h.fates, congrArg (· + 1) h.clock, h.commits⟩

omit [Writes W κ] in
theorem Twin.writing (h : Twin E s t) (writes : List W) :
    Twin E (s.writing writes) (t.writing writes) :=
  ⟨h.committed, congrArg (· ++ writes) h.own, h.others, h.fates, h.clock, h.commits⟩

theorem Twin.committing (hE : KeptByWrites W E) (h : Twin E s t) :
    Twin E (s.committing s.next) (t.committing t.next) := by
  refine ⟨h.view hE, rfl, h.others, h.fates, congrArg (· + 1) h.clock, ?_⟩
  show s.own :: (ReadCommitted.commits s.seen).map Prod.fst =
    t.own :: (ReadCommitted.commits t.seen).map Prod.fst
  rw [h.own, h.commits]

omit [Writes W κ] in
theorem Twin.uncommitted (h : Twin E s t) : Twin E (s.uncommitted s.next) (t.uncommitted t.next) :=
  ⟨h.next, rfl, h.others, h.fates, congrArg (· + 1) h.clock, h.commits⟩

omit [Writes W κ] in
theorem Twin.rolledBack (h : Twin E s t) : Twin E s.rolledBack t.rolledBack :=
  ⟨h.committed, rfl, h.others, h.fates, h.clock, h.commits⟩

/-- A statement that answers alike on states that `E` relates. -/
theorem lockstep_statement (hE : KeptByWrites W E) {label : L} {run : κ → Except ε (α × List W)}
    (hrun : ∀ c c', E c c' → run c = run c') :
    Lockstep (Twin E) (statement label run : EStateM ε (Session κ W π L) α) := by
  intro s t h
  have hreading := h.reading label
  have hsame := hrun _ _ (h.view hE)
  unfold statement
  simp only [get_bind_apply, set_bind_apply]
  rw [← h.fates, ← h.clock]
  cases s.fates s.clock with
  | fails e => exact .error _ hreading
  | unacknowledged e => exact .error _ hreading
  | runs =>
      simp only [hsame]
      cases run (overlay t.own t.next) with
      | error e => exact .error e hreading
      | ok r => exact .ok r.1 (hreading.writing r.2)

theorem lockstep_query (hE : KeptByWrites W E) {label : L} {read : κ → α}
    (hread : ∀ c c', E c c' → read c = read c') :
    Lockstep (Twin E) (query label read : EStateM ε (Session κ W π L) α) :=
  lockstep_statement hE fun c c' h => by rw [hread c c' h]

theorem lockstep_commit (hE : KeptByWrites W E) :
    Lockstep (Twin E) (commit : EStateM ε (Session κ W π L) PUnit) := by
  intro s t h
  unfold commit
  simp only [get_bind_apply]
  rw [← h.fates, ← h.clock]
  cases s.fates s.clock with
  | runs => exact .ok _ (h.committing hE)
  | fails e => exact .error _ h.uncommitted
  | unacknowledged e => exact .error _ (h.committing hE)

theorem lockstep_transaction (hE : KeptByWrites W E) {body : EStateM ε (Session κ W π L) α}
    (hbody : Lockstep (Twin E) body) : Lockstep (Twin E) (transaction body) :=
  (hbody.tryCatch fun e => (lockstep_modify fun _ _ h => h.rolledBack).bind fun _ =>
    lockstep_throw e).bind fun a => (lockstep_commit hE).bind fun _ => lockstep_pure a

end Millpond.ReadCommitted
