import Millpond.Lib.Prog
import Mathlib.Logic.Relation

set_option autoImplicit false

/-! # Sessions that commit every call

A program whose every call is a transaction of its own, on a state that others move between its calls.
A call may fail before it does anything, or do its work in part and then fail. What the state goes
through in a run is a path of steps of the others and steps of the program. -/

namespace Millpond.Autocommit

open Prog

structure Session (κ ε : Type) where
  state : κ
  /-- What the others make of the state before the `n`-th call. -/
  others : ℕ → κ → κ
  /-- The error the `n`-th call meets before it does anything. -/
  fates : ℕ → Option ε
  clock : ℕ

variable {κ ε α β : Type}

namespace Session

/-- The others stay within `R`. -/
def Within (R : κ → κ → Prop) (s : Session κ ε) : Prop := ∀ n c, R c (s.others n c)

/-- The state the next call finds. -/
def next (s : Session κ ε) : κ := s.others s.clock s.state

/-- A call left the state at `c`. -/
def after (s : Session κ ε) (c : κ) : Session κ ε := { s with state := c, clock := s.clock + 1 }

@[simp] theorem after_state (s : Session κ ε) (c : κ) : (s.after c).state = c := rfl

@[simp] theorem after_others (s : Session κ ε) (c : κ) : (s.after c).others = s.others := rfl

@[simp] theorem after_fates (s : Session κ ε) (c : κ) : (s.after c).fates = s.fates := rfl

end Session

/-! ## Calls -/

/-- One call: what it makes of the state, and how it ends. -/
def call (run : κ → κ × Except ε α) : EStateM ε (Session κ ε) α := fun s =>
  match s.fates s.clock with
  | some e => .error e (s.after s.next)
  | none =>
      match run s.next with
      | (c, .ok a) => .ok a (s.after c)
      | (c, .error e) => .error e (s.after c)

/-- A call that only reads. -/
def query (read : κ → α) : EStateM ε (Session κ ε) α := call fun c => (c, .ok (read c))

/-- A call that changes the state. -/
def exec (change : κ → κ) : EStateM ε (Session κ ε) PUnit := call fun c => (change c, .ok ⟨⟩)

theorem wp_call {run : κ → κ × Except ε α} {Q : α → Session κ ε → Prop}
    {E : ε → Session κ ε → Prop} {s : Session κ ε}
    (hfate : ∀ e, s.fates s.clock = some e → E e (s.after s.next))
    (hok : ∀ a c, run s.next = (c, .ok a) → Q a (s.after c))
    (herror : ∀ e c, run s.next = (c, .error e) → E e (s.after c)) : wp (call run) Q E s := by
  unfold wp call
  cases hf : s.fates s.clock with
  | some e => exact hfate e hf
  | none =>
      rcases hrun : run s.next with ⟨c, a | e⟩
      · exact herror _ c hrun
      · exact hok _ c hrun

/-! ## Paths -/

/-- Steps of the others and of the program, in any number and order. -/
def Moves (R P : κ → κ → Prop) : κ → κ → Prop := Relation.ReflTransGen fun c d => R c d ∨ P c d

variable {R P : κ → κ → Prop} {s t : Session κ ε}

theorem moves_other {c d : κ} (h : R c d) : Moves R P c d := .single (Or.inl h)

theorem moves_own {c d : κ} (h : P c d) : Moves R P c d := .single (Or.inr h)

/-- What every step keeps, every path keeps. -/
theorem Moves.invariant {I : κ → Prop} {c d : κ} (h : Moves R P c d)
    (hR : ∀ c d, I c → R c d → I d) (hP : ∀ c d, I c → P c d → I d) (hc : I c) : I d := by
  induction h with
  | refl => exact hc
  | tail _ hstep ih =>
      rcases hstep with hother | hown
      · exact hR _ _ ih hother
      · exact hP _ _ ih hown

/-- From `s` the session came to `t` along a path. -/
structure Follows (R P : κ → κ → Prop) (s t : Session κ ε) : Prop where
  others : t.others = s.others
  fates : t.fates = s.fates
  moves : Moves R P s.state t.state

theorem rely_follows (R P : κ → κ → Prop) :
    Rely (fun s : Session κ ε => s.Within R) (fun s t => s.Within R ∧ Follows R P s t) where
  refl s hw := ⟨hw, rfl, rfl, .refl⟩
  trans s t u h h' := ⟨h.1, h'.2.others.trans h.2.others, h'.2.fates.trans h.2.fates,
    h.2.moves.trans h'.2.moves⟩
  target s t h n c := by
    rw [h.2.others]
    exact h.1 n c

/-- However `x` ends, the state went along a path; its normal end has `Q`. -/
def Goes (R P : κ → κ → Prop) (x : EStateM ε (Session κ ε) α) (Q : α → κ → Prop)
    (s : Session κ ε) : Prop :=
  Along (fun s t => s.Within R ∧ Follows R P s t) x (fun a t => Q a t.state) s

/-- A call in a state where `J` holds, which no step of the others ends. -/
theorem goes_call {run : κ → κ × Except ε α} {J : κ → Prop} {Q : α → κ → Prop}
    (hw : s.Within R) (hstable : ∀ c d, J c → R c d → J d) (hJ : J s.state)
    (hP : ∀ c, J c → Moves R P c (run c).1)
    (hQ : ∀ c a d, J c → run c = (d, .ok a) → Q a d) : Goes R P (call run) Q s := by
  have hother : R s.state s.next := hw _ _
  have hnext : J s.next := hstable _ _ hJ hother
  have hpath : Moves R P s.state (run s.next).1 := (moves_other hother).trans (hP _ hnext)
  refine wp_call (fun e _ => ?_) (fun a c hrun => ?_) (fun e c hrun => ?_)
  · exact ⟨hw, rfl, rfl, moves_other hother⟩
  · rw [hrun] at hpath
    exact ⟨⟨hw, rfl, rfl, hpath⟩, hQ _ a c hnext hrun⟩
  · rw [hrun] at hpath
    exact ⟨hw, rfl, rfl, hpath⟩

theorem goes_query {read : κ → α} {J : κ → Prop} {Q : α → κ → Prop} (hw : s.Within R)
    (hstable : ∀ c d, J c → R c d → J d) (hJ : J s.state) (hQ : ∀ c, J c → Q (read c) c) :
    Goes R P (query read) Q s :=
  goes_call hw hstable hJ (fun _ _ => .refl) fun c a d hc hrun => by
    cases hrun
    exact hQ c hc

theorem goes_exec {change : κ → κ} {J : κ → Prop} {Q : PUnit → κ → Prop} (hw : s.Within R)
    (hstable : ∀ c d, J c → R c d → J d) (hJ : J s.state) (hP : ∀ c, J c → P c (change c))
    (hQ : ∀ c, J c → Q ⟨⟩ (change c)) : Goes R P (exec change) Q s :=
  goes_call hw hstable hJ (fun c hc => moves_own (hP c hc)) fun c a d hc hrun => by
    cases hrun
    exact hQ c hc

theorem goes_pure {Q : α → κ → Prop} (hw : s.Within R) {a : α} (h : Q a s.state) :
    Goes R P (pure a) Q s := (rely_follows R P).pure hw h

theorem goes_throw {Q : α → κ → Prop} (hw : s.Within R) (e : ε) :
    Goes R P (throw e : EStateM ε (Session κ ε) α) Q s := (rely_follows R P).throw hw e

theorem goes_bind {x : EStateM ε (Session κ ε) α} {f : α → EStateM ε (Session κ ε) β}
    {J : α → κ → Prop} {Q : β → κ → Prop} (hx : Goes R P x J s)
    (hf : ∀ a t, t.Within R → J a t.state → Goes R P (f a) Q t) : Goes R P (x >>= f) Q s :=
  (rely_follows R P).bind hx fun a t hw _ hJ => hf a t hw hJ

theorem goes_tryCatch {x : EStateM ε (Session κ ε) α} {handle : ε → EStateM ε (Session κ ε) α}
    {Q : α → κ → Prop} (hx : Goes R P x Q s)
    (hhandle : ∀ e t, t.Within R → Moves R P s.state t.state → Goes R P (handle e) Q t) :
    Goes R P (tryCatch x handle) Q s :=
  along_tryCatch (rely_follows R P).trans hx fun e t h =>
    hhandle e t ((rely_follows R P).target s t h) h.2.moves

theorem goes_ite {c : Prop} [Decidable c] {x y : EStateM ε (Session κ ε) α} {Q : α → κ → Prop}
    (hx : c → Goes R P x Q s) (hy : ¬ c → Goes R P y Q s) : Goes R P (if c then x else y) Q s :=
  along_ite hx hy

/-- The path a run took. -/
theorem Goes.final {x : EStateM ε (Session κ ε) α} {Q : α → κ → Prop} (h : Goes R P x Q s) :
    Follows R P s (Prog.final x s) :=
  final_of_wp (P := Follows R P s) (wp_mono h (fun _ _ h => h.1.2) (fun _ _ h => h.2))

/-! ## Calls that meet no error of their own -/

/-- The others stay within `R`, and no call fails before it runs. -/
structure Session.Calm (R : κ → κ → Prop) (s : Session κ ε) : Prop where
  within : s.Within R
  quiet : ∀ n, s.fates n = none

/-- From `s`, `x` ends normally in `Q` or with an exception in `E`, and the session stays calm. -/
def Ends (R : κ → κ → Prop) (x : EStateM ε (Session κ ε) α) (Q : α → κ → Prop) (E : ε → κ → Prop)
    (s : Session κ ε) : Prop :=
  wp x (fun a t => t.Calm R ∧ Q a t.state) (fun e t => t.Calm R ∧ E e t.state) s

section Ends

variable {Q : α → κ → Prop} {E E' : ε → κ → Prop}

theorem Session.Calm.after (h : s.Calm R) (c : κ) : (s.after c).Calm R := ⟨h.within, h.quiet⟩

/-- A call in a state where `J` holds, which no step of the others ends. -/
theorem ends_call {run : κ → κ × Except ε α} {J : κ → Prop} (hs : s.Calm R)
    (hstable : ∀ c d, J c → R c d → J d) (hJ : J s.state)
    (hok : ∀ c a d, J c → run c = (d, .ok a) → Q a d)
    (herror : ∀ c e d, J c → run c = (d, .error e) → E e d) : Ends R (call run) Q E s := by
  have hnext : J s.next := hstable _ _ hJ (hs.within _ _)
  refine wp_call (fun e he => ?_) (fun a c hrun => ?_) (fun e c hrun => ?_)
  · rw [hs.quiet] at he
    cases he
  · exact ⟨hs.after c, hok _ a c hnext hrun⟩
  · exact ⟨hs.after c, herror _ e c hnext hrun⟩

theorem ends_query {read : κ → α} {J : κ → Prop} (hs : s.Calm R)
    (hstable : ∀ c d, J c → R c d → J d) (hJ : J s.state) (hQ : ∀ c, J c → Q (read c) c) :
    Ends R (query read) Q E s :=
  ends_call hs hstable hJ (fun c a d hc hrun => by cases hrun; exact hQ c hc)
    fun c e d _ hrun => by cases hrun

theorem ends_exec {change : κ → κ} {J : κ → Prop} {Q : PUnit → κ → Prop} (hs : s.Calm R)
    (hstable : ∀ c d, J c → R c d → J d) (hJ : J s.state) (hQ : ∀ c, J c → Q ⟨⟩ (change c)) :
    Ends R (exec change) Q E s :=
  ends_call hs hstable hJ (fun c a d hc hrun => by cases hrun; exact hQ c hc)
    fun c e d _ hrun => by cases hrun

theorem ends_pure (hs : s.Calm R) {a : α} (h : Q a s.state) : Ends R (pure a) Q E s := ⟨hs, h⟩

theorem ends_throw (hs : s.Calm R) {e : ε} (h : E e s.state) :
    Ends R (throw e : EStateM ε (Session κ ε) α) Q E s := ⟨hs, h⟩

theorem ends_bind {x : EStateM ε (Session κ ε) α} {f : α → EStateM ε (Session κ ε) β}
    {J : α → κ → Prop} {Q : β → κ → Prop} (hx : Ends R x J E s)
    (hf : ∀ a t, t.Calm R → J a t.state → Ends R (f a) Q E t) : Ends R (x >>= f) Q E s := by
  unfold Ends
  rw [wp_bind]
  exact wp_mono hx (fun a t h => hf a t h.1 h.2) fun _ _ h => h

theorem ends_tryCatch {x : EStateM ε (Session κ ε) α} {handle : ε → EStateM ε (Session κ ε) α}
    (hx : Ends R x Q E' s) (hhandle : ∀ e t, t.Calm R → E' e t.state → Ends R (handle e) Q E t) :
    Ends R (tryCatch x handle) Q E s := by
  unfold Ends
  rw [wp_tryCatch]
  exact wp_mono hx (fun _ _ h => h) fun e t h => hhandle e t h.1 h.2

theorem ends_ite {c : Prop} [Decidable c] {x y : EStateM ε (Session κ ε) α}
    (hx : c → Ends R x Q E s) (hy : ¬ c → Ends R y Q E s) : Ends R (if c then x else y) Q E s := by
  split
  · next h => exact hx h
  · next h => exact hy h

end Ends

end Millpond.Autocommit
