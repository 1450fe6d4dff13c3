import Millpond.Lib.Prog
import Mathlib.Logic.Relation

set_option autoImplicit false

/-! # Transactions under READ COMMITTED

One session of a database that others write to. A statement sees everything committed before it
began, with the writes of its own open transaction laid over it; between any two statements the
others may commit. A transaction ends by making its writes part of the committed state at once, or
by leaving no trace. Locks and key conflicts are a relation between the writes a session holds and
what the others can commit meanwhile. -/

namespace Millpond.ReadCommitted

open Prog

/-- The writes of a statement, as what they do to the database. -/
class Writes (W κ : Type) where
  apply : W → κ → κ

/-- The errors a statement may meet, among these of the program. -/
class Raises (π ε : Type) where
  raised : π → ε

/-- The database with uncommitted writes laid over it, first write first. -/
def overlay {W κ : Type} [Writes W κ] (own : List W) (c : κ) : κ :=
  own.foldl (fun c w => Writes.apply w c) c

/-- What becomes of a statement: it may fail, and a `COMMIT` may succeed and still report an
    error. -/
inductive Fate (π : Type) where
  | runs
  | fails (e : π)
  | unacknowledged (e : π)

/-- What a session did: a labelled statement with the state it saw, and a commit with its writes
    and the state they went into. -/
inductive Seen (κ W L : Type) where
  | statement (label : L) (view : κ)
  | commit (own : List W) (before : κ)

structure Session (κ W π L : Type) where
  committed : κ
  /-- The writes of the open transaction. -/
  own : List W
  /-- What the others commit before the `n`-th statement, given the writes held against them. -/
  others : ℕ → List W → κ → κ
  fates : ℕ → Fate π
  clock : ℕ
  /-- Newest first. -/
  seen : List (Seen κ W L)

variable {κ W π ε L α β : Type} [Writes W κ] [Raises π ε]

namespace Session

/-- The others stay within `R`. -/
def Within (R : List W → κ → κ → Prop) (s : Session κ W π L) : Prop :=
  ∀ n own c, R own c (s.others n own c)

/-- A statement began and saw `c` under its own writes. -/
def reading (s : Session κ W π L) (label : L) (c : κ) : Session κ W π L :=
  { s with
    committed := c, clock := s.clock + 1, seen := .statement label (overlay s.own c) :: s.seen }

def writing (s : Session κ W π L) (writes : List W) : Session κ W π L :=
  { s with own := s.own ++ writes }

/-- The transaction ended at `c` with its writes. -/
def committing (s : Session κ W π L) (c : κ) : Session κ W π L :=
  { s with
    committed := overlay s.own c, own := [], clock := s.clock + 1, seen := .commit s.own c :: s.seen }

/-- The `COMMIT` failed at `c`. -/
def uncommitted (s : Session κ W π L) (c : κ) : Session κ W π L :=
  { s with committed := c, own := [], clock := s.clock + 1 }

/-- `ROLLBACK`. -/
def rolledBack (s : Session κ W π L) : Session κ W π L := { s with own := [] }

/-- What the others make of the committed state before the next statement. -/
def next (s : Session κ W π L) : κ := s.others s.clock s.own s.committed

end Session

/-! ## Statements and transactions -/

/-- One statement: `run` answers from the state it sees, or refuses. -/
def statement (label : L) (run : κ → Except ε (α × List W)) : EStateM ε (Session κ W π L) α := do
  let s ← get
  set (s.reading label s.next)
  match s.fates s.clock with
  | .fails e => throw (Raises.raised e)
  | .unacknowledged e => throw (Raises.raised e)
  | .runs =>
      match run (overlay s.own s.next) with
      | .error e => throw e
      | .ok (a, writes) => do
          modify fun s => s.writing writes
          pure a

/-- A statement that writes nothing. -/
def query (label : L) (read : κ → α) : EStateM ε (Session κ W π L) α :=
  statement label fun c => .ok (read c, [])

def commit : EStateM ε (Session κ W π L) PUnit := do
  let s ← get
  match s.fates s.clock with
  | .runs => set (s.committing s.next)
  | .fails e => do
      set (s.uncommitted s.next)
      throw (Raises.raised e)
  | .unacknowledged e => do
      set (s.committing s.next)
      throw (Raises.raised e)

/-- Commit on a clean exit, roll back on an exception. -/
def transaction (body : EStateM ε (Session κ W π L) α) : EStateM ε (Session κ W π L) α := do
  let a ← tryCatch body fun e => do
    modify Session.rolledBack
    throw e
  commit
  pure a

/-! ## Rules -/

variable {R : List W → κ → κ → Prop} {s s' : Session κ W π L}

omit [Writes W κ] in
theorem within_next (h : s.Within R) : R s.own s.committed s.next := h _ _ _

theorem wp_set {σ : Type} (t : σ) {Q : PUnit → σ → Prop} {E : ε → σ → Prop} :
    wp (set t : EStateM ε σ PUnit) Q E = fun _ => Q ⟨⟩ t := rfl

/-- The rule for a statement, with what the outcome says of the fate. -/
theorem wp_statement_fated {label : L} {run : κ → Except ε (α × List W)}
    {Q : α → Session κ W π L → Prop} {E : ε → Session κ W π L → Prop}
    (hfail : ∀ e : π, s.fates s.clock ≠ .runs → E (Raises.raised e) (s.reading label s.next))
    (hrefused : ∀ e, run (overlay s.own s.next) = .error e → E e (s.reading label s.next))
    (hrun : ∀ a writes, s.fates s.clock = .runs → run (overlay s.own s.next) = .ok (a, writes) →
      Q a ((s.reading label s.next).writing writes)) :
    wp (statement label run) Q E s := by
  unfold statement
  simp only [wp_bind, wp_get, wp_set]
  cases hfate : s.fates s.clock with
  | fails e => exact hfail e (by rw [hfate]; nofun)
  | unacknowledged e => exact hfail e (by rw [hfate]; nofun)
  | runs =>
      cases hres : run (overlay s.own s.next) with
      | error e => exact hrefused e hres
      | ok r =>
          obtain ⟨a, writes⟩ := r
          exact hrun a writes hfate hres

theorem wp_statement {label : L} {run : κ → Except ε (α × List W)}
    {Q : α → Session κ W π L → Prop} {E : ε → Session κ W π L → Prop}
    (hfail : ∀ e, E e (s.reading label s.next))
    (hrun : ∀ a writes, run (overlay s.own s.next) = .ok (a, writes) →
      Q a ((s.reading label s.next).writing writes)) :
    wp (statement label run) Q E s :=
  wp_statement_fated (fun _ _ => hfail _) (fun e _ => hfail e) fun a writes _ => hrun a writes

theorem wp_query {label : L} {read : κ → α} {Q : α → Session κ W π L → Prop}
    {E : ε → Session κ W π L → Prop} (hfail : ∀ e, E e (s.reading label s.next))
    (hrun : Q (read (overlay s.own s.next)) (s.reading label s.next)) :
    wp (query label read) Q E s := by
  refine wp_statement hfail (fun a writes h => ?_)
  simp only [Except.ok.injEq, Prod.mk.injEq] at h
  obtain ⟨rfl, rfl⟩ := h
  have hsame : (s.reading label s.next).writing [] = s.reading label s.next := by
    simp [Session.writing]
  rw [hsame]
  exact hrun

/-- The rule for `commit`, with what the outcome says of the fate. -/
theorem wp_commit_fated {Q : PUnit → Session κ W π L → Prop} {E : ε → Session κ W π L → Prop}
    (hdone : s.fates s.clock = .runs → Q ⟨⟩ (s.committing s.next))
    (hlost : ∀ e : π, s.fates s.clock = .unacknowledged e → E (Raises.raised e) (s.committing s.next))
    (hfail : ∀ e : π, s.fates s.clock = .fails e → E (Raises.raised e) (s.uncommitted s.next)) :
    wp commit Q E s := by
  unfold commit
  simp only [wp_bind, wp_get]
  cases hfate : s.fates s.clock with
  | runs => exact hdone hfate
  | fails e =>
      simp only [wp_bind, wp_set]
      exact hfail e hfate
  | unacknowledged e =>
      simp only [wp_bind, wp_set]
      exact hlost e hfate

theorem wp_transaction_fated {body : EStateM ε (Session κ W π L) α} {Q : α → Session κ W π L → Prop}
    {E : ε → Session κ W π L → Prop}
    (hbody : wp body
      (fun a t => (t.fates t.clock = .runs → Q a (t.committing t.next)) ∧
        (∀ e : π, t.fates t.clock = .unacknowledged e → E (Raises.raised e) (t.committing t.next)) ∧
        ∀ e : π, t.fates t.clock = .fails e → E (Raises.raised e) (t.uncommitted t.next))
      (fun e t => E e t.rolledBack) s) :
    wp (transaction body) Q E s := by
  unfold transaction
  simp only [wp_bind, wp_tryCatch, wp_modify, wp_throw]
  refine wp_mono hbody (fun a t h => ?_) (fun _ _ h => h)
  obtain ⟨hdone, hlost, hfail⟩ := h
  exact wp_commit_fated hdone hlost hfail

theorem wp_transaction {body : EStateM ε (Session κ W π L) α} {Q : α → Session κ W π L → Prop}
    {E : ε → Session κ W π L → Prop}
    (hbody : wp body
      (fun a t => Q a (t.committing t.next) ∧
        (∀ e : π, E (Raises.raised e) (t.committing t.next)) ∧
        ∀ e : π, E (Raises.raised e) (t.uncommitted t.next))
      (fun e t => E e t.rolledBack) s) :
    wp (transaction body) Q E s :=
  wp_transaction_fated (wp_mono hbody
    (fun _ _ h => ⟨fun _ => h.1, fun e _ => h.2.1 e, fun e _ => h.2.2 e⟩) fun _ _ h => h)

/-- A statement that only writes, between states of which the others keep `I`. -/
theorem wp_write {I : κ → Prop} (hI : ∀ own c c', I c → R own c c' → I c') {label : L}
    {writes : κ → List W} {Q : PUnit → Session κ W π L → Prop} (hw : s.Within R) (hs : I s.committed)
    (h : ∀ t : Session κ W π L, t.Within R → I t.committed →
      (∃ c, I c ∧ t.own = s.own ++ writes (overlay s.own c)) → Q ⟨⟩ t) :
    wp (statement label fun c => (.ok (⟨⟩, writes c) : Except ε (PUnit × List W))) Q
      (fun _ _ => True) s := by
  refine wp_statement (fun _ => trivial) (fun _ ws hres => ?_)
  simp only [Except.ok.injEq, Prod.mk.injEq] at hres
  have hnext : I s.next := hI _ _ _ hs (within_next hw)
  refine h _ hw hnext ⟨s.next, hnext, ?_⟩
  rw [hres.2]
  rfl

/-! ## How the committed state moves -/

/-- The others alone take the committed state from `c` to `c'`. -/
def Drift (R : List W → κ → κ → Prop) : κ → κ → Prop :=
  Relation.ReflTransGen fun c c' => ∃ own, R own c c'

/-- The commits among what a session did, newest first. -/
def commits (seen : List (Seen κ W L)) : List (List W × κ) :=
  seen.filterMap fun
    | .commit own before => some (own, before)
    | .statement _ _ => none

omit [Writes W κ] in
@[simp] theorem commits_nil : commits ([] : List (Seen κ W L)) = [] := rfl

omit [Writes W κ] in
@[simp] theorem commits_commit (own : List W) (before : κ) (seen : List (Seen κ W L)) :
    commits (.commit own before :: seen) = (own, before) :: commits seen := rfl

omit [Writes W κ] in
@[simp] theorem commits_statement (label : L) (view : κ) (seen : List (Seen κ W L)) :
    commits (.statement (W := W) label view :: seen) = commits seen := rfl

omit [Writes W κ] in
@[simp] theorem commits_append (seen seen' : List (Seen κ W L)) :
    commits (seen ++ seen') = commits seen ++ commits seen' := List.filterMap_append

/-- What the statements under `label` saw, newest first. -/
def views [DecidableEq L] (label : L) (seen : List (Seen κ W L)) : List κ :=
  seen.filterMap fun
    | .statement l view => if l = label then some view else none
    | .commit _ _ => none

section Views

variable [DecidableEq L]

omit [Writes W κ] in
@[simp] theorem views_nil (label : L) : views label ([] : List (Seen κ W L)) = [] := rfl

omit [Writes W κ] in
@[simp] theorem views_commit (label : L) (own : List W) (before : κ) (seen : List (Seen κ W L)) :
    views label (.commit own before :: seen) = views label seen := rfl

omit [Writes W κ] in
theorem views_statement (label l : L) (view : κ) (seen : List (Seen κ W L)) :
    views label (.statement (W := W) l view :: seen) =
      if l = label then view :: views label seen else views label seen := by
  unfold views
  rw [List.filterMap_cons]
  split <;> simp_all

end Views

/-- The committed state moves from `c₀` by the others and by the session's own commits, newest
    first; nothing else changes it. -/
inductive Evolves (R : List W → κ → κ → Prop) (c₀ : κ) : List (List W × κ) → κ → Prop where
  | start : Evolves R c₀ [] c₀
  | others {entries c c'} : Evolves R c₀ entries c → Drift R c c' → Evolves R c₀ entries c'
  | commit {entries c} (own : List W) :
      Evolves R c₀ entries c → Evolves R c₀ ((own, c) :: entries) (overlay own c)

theorem Evolves.trans {c₀ c c' : κ} {entries entries' : List (List W × κ)}
    (h : Evolves R c₀ entries c) (h' : Evolves R c entries' c') :
    Evolves R c₀ (entries' ++ entries) c' := by
  induction h' with
  | start => exact h
  | others _ hdrift ih => exact ih.others hdrift
  | commit own _ ih => exact ih.commit own

/-- Without a commit of its own, a session leaves the committed state to the others. -/
theorem drift_of_evolves_nil {c c' : κ} (h : Evolves R c [] c') : Drift R c c' := by
  generalize hentries : ([] : List (List W × κ)) = entries at h
  induction h with
  | start => exact .refl
  | others _ hdrift ih => exact (ih hentries).trans hdrift
  | commit own _ _ => exact absurd hentries (by simp)

/-- Commits without writes leave the committed state to the others too. -/
theorem drift_of_evolves_idle {c c' : κ} {entries : List (List W × κ)} (h : Evolves R c entries c')
    (hidle : ∀ entry ∈ entries, entry.1 = []) : Drift R c c' := by
  induction h with
  | start => exact .refl
  | others _ hdrift ih => exact (ih hidle).trans hdrift
  | commit own _ ih =>
      obtain rfl : own = [] := hidle _ List.mem_cons_self
      exact ih fun entry he => hidle entry (List.mem_cons_of_mem _ he)

omit [Writes W κ] in
theorem drift_of_moves {own : List W} {c c' : κ} (h : Relation.ReflTransGen (R own) c c') :
    Drift R c c' := by
  induction h with
  | refl => exact .refl
  | tail _ hstep ih => exact ih.tail ⟨own, hstep⟩

omit [Writes W κ] in
theorem drift_invariant {I : κ → Prop} (hothers : ∀ own c c', I c → R own c c' → I c') {c c' : κ}
    (h : Drift R c c') (hI : I c) : I c' := by
  induction h with
  | refl => exact hI
  | tail _ hstep ih =>
      obtain ⟨own, hR⟩ := hstep
      exact hothers own _ _ ih hR

/-- An invariant that the others and the commits of a run keep holds after it. -/
theorem Evolves.invariant {I : List (List W × κ) → κ → Prop} {c₀ c : κ}
    {entries : List (List W × κ)} (h : Evolves R c₀ entries c) (h₀ : I [] c₀)
    (hothers : ∀ entries own c c', I entries c → R own c c' → I entries c')
    (hcommit : ∀ own c rest, (own, c) :: rest <:+ entries → I rest c →
      I ((own, c) :: rest) (overlay own c)) : I entries c := by
  induction h with
  | start => exact h₀
  | others _ hdrift ih => exact drift_invariant (hothers _) hdrift (ih hcommit)
  | commit own _ ih =>
      exact hcommit _ _ _ (List.suffix_refl _)
        (ih fun own' c' rest hsuf => hcommit own' c' rest (hsuf.trans (List.suffix_cons _ _)))

/-- Inside a transaction: only statements were logged and only the others moved the committed
    state. -/
structure Follows (R : List W → κ → κ → Prop) (s s' : Session κ W π L) : Prop where
  others : s'.others = s.others
  drift : Drift R s.committed s'.committed
  log : ∃ added, s'.seen = added ++ s.seen ∧ commits added = []

omit [Writes W κ] in
theorem Session.Within.of_others (hw : s.Within R) (h : s'.others = s.others) : s'.Within R := by
  intro n own c
  rw [h]
  exact hw n own c

omit [Writes W κ] in
theorem Follows.refl (s : Session κ W π L) : Follows R s s := ⟨rfl, .refl, [], rfl, rfl⟩

omit [Writes W κ] in
theorem Follows.trans {s₁ s₂ s₃ : Session κ W π L} (h : Follows R s₁ s₂) (h' : Follows R s₂ s₃) :
    Follows R s₁ s₃ := by
  obtain ⟨added, hseen, hnone⟩ := h.log
  obtain ⟨added', hseen', hnone'⟩ := h'.log
  refine ⟨h'.others.trans h.others, h.drift.trans h'.drift, added' ++ added, ?_, ?_⟩
  · rw [hseen', hseen, List.append_assoc]
  · rw [commits_append, hnone, hnone', List.append_nil]

omit [Writes W κ] in
theorem drift_next (hw : s.Within R) : Drift R s.committed s.next :=
  Relation.ReflTransGen.single ⟨s.own, within_next hw⟩

theorem follows_reading (hw : s.Within R) (label : L) : Follows R s (s.reading label s.next) :=
  ⟨rfl, drift_next hw, [.statement label (overlay s.own s.next)], rfl, rfl⟩

omit [Writes W κ] in
theorem follows_writing (writes : List W) : Follows R s (s.writing writes) :=
  ⟨rfl, .refl, [], rfl, rfl⟩

/-- A stretch of a transaction that writes nothing: the others move the committed state against the
    same writes, and only statements under `labels` are logged. -/
structure Reads [DecidableEq L] (R : List W → κ → κ → Prop) (labels : List L)
    (s s' : Session κ W π L) : Prop where
  within : s'.Within R
  own : s'.own = s.own
  moves : Relation.ReflTransGen (R s.own) s.committed s'.committed
  views : ∀ l ∉ labels, views l s'.seen = views l s.seen

section Reads

variable [DecidableEq L] {labels : List L}

omit [Writes W κ] in
theorem Reads.refl (hw : s.Within R) : Reads R labels s s := ⟨hw, rfl, .refl, fun _ _ => rfl⟩

omit [Writes W κ] in
theorem Reads.trans {s₁ s₂ s₃ : Session κ W π L} (h : Reads R labels s₁ s₂)
    (h' : Reads R labels s₂ s₃) : Reads R labels s₁ s₃ :=
  ⟨h'.within, h'.own.trans h.own, h.moves.trans (h.own ▸ h'.moves),
    fun l hl => (h'.views l hl).trans (h.views l hl)⟩

/-- One statement of a transaction: what it wrote, and the state it saw. -/
structure Did [DecidableEq L] (R : List W → κ → κ → Prop) (label : L) (writes : List W)
    (s s' : Session κ W π L) : Prop where
  within : s'.Within R
  own : s'.own = s.own ++ writes
  step : R s.own s.committed s'.committed
  view : views label s'.seen = overlay s.own s'.committed :: views label s.seen
  frame : ∀ l, label ≠ l → views l s'.seen = views l s.seen

theorem Did.reads {label : L} (h : Did R label [] s s') (hl : label ∈ labels) :
    Reads R labels s s' := by
  refine ⟨h.within, ?_, .single h.step, fun l hnot => h.frame l fun heq => hnot (heq ▸ hl)⟩
  rw [h.own, List.append_nil]

theorem did_writing (hw : s.Within R) (label : L) (writes : List W) :
    Did R label writes s ((s.reading label s.next).writing writes) := by
  refine ⟨hw.of_others rfl, rfl, within_next hw, ?_, fun l hne => ?_⟩
  · exact (views_statement label label _ s.seen).trans (if_pos rfl)
  · exact (views_statement l label _ s.seen).trans (if_neg hne)

theorem wp_statement_did (hw : s.Within R) {label : L} {run : κ → Except ε (α × List W)} :
    wp (statement label run)
      (fun a t => ∃ writes, run (overlay s.own t.committed) = .ok (a, writes) ∧
        Did R label writes s t) (fun _ _ => True) s :=
  wp_statement (fun _ => trivial) fun _ writes h => ⟨writes, h, did_writing hw label writes⟩

theorem wp_query_did (hw : s.Within R) {label : L} {read : κ → α} :
    wp (query label read : EStateM ε (Session κ W π L) α)
      (fun a t => a = read (overlay s.own t.committed) ∧ Did R label [] s t)
      (fun _ _ => True) s := by
  refine wp_mono (wp_statement_did hw) (fun a t h => ?_) (fun _ _ h => h)
  obtain ⟨writes, hrun, hdid⟩ := h
  simp only [Except.ok.injEq, Prod.mk.injEq] at hrun
  obtain ⟨rfl, rfl⟩ := hrun
  exact ⟨rfl, hdid⟩

end Reads

/-- A piece of a transaction. -/
def Inside (R : List W → κ → κ → Prop) (x : EStateM ε (Session κ W π L) α) : Prop :=
  ∀ s, s.Within R → wp x (fun _ => Follows R s) (fun _ => Follows R s) s

theorem inside_statement (label : L) (run : κ → Except ε (α × List W)) :
    Inside R (statement label run : EStateM ε (Session κ W π L) α) := fun _ hw =>
  wp_statement (fun _ => follows_reading hw label)
    (fun _ writes _ => (follows_reading hw label).trans (follows_writing writes))

omit [Writes W κ] [Raises π ε] in
theorem inside_pure (a : α) : Inside R (pure a : EStateM ε (Session κ W π L) α) :=
  fun s _ => Follows.refl s

omit [Writes W κ] [Raises π ε] in
theorem inside_throw (e : ε) : Inside R (throw e : EStateM ε (Session κ W π L) α) :=
  fun s _ => Follows.refl s

omit [Writes W κ] [Raises π ε] in
theorem Inside.bind {x : EStateM ε (Session κ W π L) α} {f : α → EStateM ε (Session κ W π L) β}
    (hx : Inside R x) (hf : ∀ a, Inside R (f a)) : Inside R (x >>= f) := by
  intro s hw
  rw [wp_bind]
  refine wp_mono (hx s hw) (fun a t h => ?_) (fun _ _ h => h)
  exact wp_mono (hf a t (hw.of_others h.others)) (fun _ _ h' => h.trans h') (fun _ _ h' => h.trans h')

omit [Writes W κ] [Raises π ε] in
theorem Inside.ite {c : Prop} [Decidable c] {x y : EStateM ε (Session κ W π L) α}
    (hx : Inside R x) (hy : Inside R y) : Inside R (if c then x else y) := by
  split
  · exact hx
  · exact hy

/-- Between transactions: the session committed the logged writes, each commit satisfies `P`, and
    the others did the rest. -/
structure Ran (R : List W → κ → κ → Prop) (P : List W → κ → Prop) (s s' : Session κ W π L) :
    Prop where
  others : s'.others = s.others
  own : s'.own = []
  log : ∃ added, s'.seen = added ++ s.seen ∧ Evolves R s.committed (commits added) s'.committed ∧
    ∀ entry ∈ commits added, P entry.1 entry.2

variable {P : List W → κ → Prop}

theorem Ran.refl {s : Session κ W π L} (hown : s.own = []) : Ran R P s s :=
  ⟨rfl, hown, [], rfl, .start, by simp⟩

theorem Ran.trans {s₁ s₂ s₃ : Session κ W π L} (h : Ran R P s₁ s₂) (h' : Ran R P s₂ s₃) :
    Ran R P s₁ s₃ := by
  obtain ⟨added, hseen, hev, hP⟩ := h.log
  obtain ⟨added', hseen', hev', hP'⟩ := h'.log
  refine ⟨h'.others.trans h.others, h'.own, added' ++ added, ?_, ?_, ?_⟩
  · rw [hseen', hseen, List.append_assoc]
  · rw [commits_append]
    exact hev.trans hev'
  · intro entry he
    rw [commits_append] at he
    exact (List.mem_append.1 he).elim (hP' entry) (hP entry)

/-- Two accounts of one run: the others as in the one, the commits as in the other. -/
theorem Ran.meet {R' : List W → κ → κ → Prop} {P' : List W → κ → Prop} (h : Ran R P s s')
    (h' : Ran R' P' s s') : Ran R' P s s' := by
  obtain ⟨added, hseen, -, hP⟩ := h.log
  obtain ⟨added', hseen', hev, -⟩ := h'.log
  obtain rfl : added = added' := List.append_cancel_right (hseen.symm.trans hseen')
  exact ⟨h.others, h.own, added, hseen, hev, hP⟩

theorem ran_of_follows (h : Follows R s s') (hown : s'.own = []) : Ran R P s s' := by
  obtain ⟨added, hseen, hnone⟩ := h.log
  refine ⟨h.others, hown, added, hseen, ?_, by simp [hnone]⟩
  rw [hnone]
  exact .others .start h.drift

/-- A program between transactions, started where `pre` holds of the committed state: all its
    commits satisfy `P`. -/
def Outside (R : List W → κ → κ → Prop) (P : List W → κ → Prop) (pre : κ → Prop)
    (x : EStateM ε (Session κ W π L) α) : Prop :=
  ∀ s, s.Within R → s.own = [] → pre s.committed → wp x (fun _ => Ran R P s) (fun _ => Ran R P s) s

variable {pre : κ → Prop}

theorem Ran.imp {P' : List W → κ → Prop} (hP : ∀ own c, P own c → P' own c) (h : Ran R P s s') :
    Ran R P' s s' := by
  obtain ⟨added, hseen, hev, hall⟩ := h.log
  exact ⟨h.others, h.own, added, hseen, hev, fun entry he => hP _ _ (hall entry he)⟩

omit [Raises π ε] in
theorem Outside.imp {P' : List W → κ → Prop} (hP : ∀ own c, P own c → P' own c)
    {x : EStateM ε (Session κ W π L) α} (hx : Outside R P pre x) : Outside R P' pre x :=
  fun s hw hown hpre => wp_mono (hx s hw hown hpre) (fun _ _ h => h.imp hP) (fun _ _ h => h.imp hP)

omit [Raises π ε] in
theorem outside_pure (a : α) : Outside R P pre (pure a : EStateM ε (Session κ W π L) α) :=
  fun _ _ hown _ => Ran.refl hown

omit [Raises π ε] in
theorem outside_throw (e : ε) : Outside R P pre (throw e : EStateM ε (Session κ W π L) α) :=
  fun _ _ hown _ => Ran.refl hown

/-- A query that is its own transaction, and what follows it. -/
theorem outside_query_bind {label : L} {read : κ → α} {f : α → EStateM ε (Session κ W π L) β}
    {J : α → κ → Prop} (hread : ∀ c c', pre c → R [] c c' → J (read c') c')
    (hf : ∀ a, Outside R P (J a) (f a)) : Outside R P pre (query label read >>= f) := by
  intro s hw hown hpre
  have hran : Ran R P s (s.reading label s.next) := ran_of_follows (follows_reading hw label) hown
  rw [wp_bind]
  refine wp_query (fun _ => hran) ?_
  have hstep : R [] s.committed s.next := hown ▸ within_next hw
  have hview : overlay s.own s.next = s.next := by rw [hown]; rfl
  refine wp_mono (hf _ _ (hw.of_others hran.others) hran.own ?_) (fun _ _ h => hran.trans h)
    (fun _ _ h => hran.trans h)
  rw [hview]
  exact hread _ _ hpre hstep

omit [Raises π ε] in
theorem Outside.bind {x : EStateM ε (Session κ W π L) α} {f : α → EStateM ε (Session κ W π L) β}
    (hx : Outside R P pre x) (hf : ∀ a, Outside R P (fun _ => True) (f a)) :
    Outside R P pre (x >>= f) := by
  intro s hw hown hpre
  rw [wp_bind]
  refine wp_mono (hx s hw hown hpre) (fun a t h => ?_) (fun _ _ h => h)
  exact wp_mono (hf a t (hw.of_others h.others) h.own trivial) (fun _ _ h' => h.trans h')
    (fun _ _ h' => h.trans h')

omit [Raises π ε] in
theorem Outside.ite {c : Prop} [Decidable c] {x y : EStateM ε (Session κ W π L) α}
    (hx : Outside R P pre x) (hy : Outside R P pre y) : Outside R P pre (if c then x else y) := by
  split
  · exact hx
  · exact hy

omit [Raises π ε] in
theorem Outside.tryCatch {x : EStateM ε (Session κ W π L) α}
    {handle : ε → EStateM ε (Session κ W π L) α} (hx : Outside R P pre x)
    (hhandle : ∀ e, Outside R P (fun _ => True) (handle e)) :
    Outside R P pre (tryCatch x handle) := by
  intro s hw hown hpre
  rw [wp_tryCatch]
  refine wp_mono (hx s hw hown hpre) (fun _ _ h => h) (fun e t h => ?_)
  exact wp_mono (hhandle e t (hw.of_others h.others) h.own trivial) (fun _ _ h' => h.trans h')
    (fun _ _ h' => h.trans h')

/-- `I` is kept by the others, and by commits that satisfy `P`. -/
structure Keeps (R : List W → κ → κ → Prop) (P : List W → κ → Prop) (I : κ → Prop) : Prop where
  others : ∀ own c c', I c → R own c c' → I c'
  commit : ∀ own c, I c → P own c → I (overlay own c)

theorem Ran.keeps {I : κ → Prop} (hkeeps : Keeps R P I) (h : Ran R P s s') (hI : I s.committed) :
    I s'.committed := by
  obtain ⟨added, -, hev, hP⟩ := h.log
  exact hev.invariant (I := fun _ => I) hI (fun _ own c c' => hkeeps.others own c c')
    fun own c rest hsuffix hc => hkeeps.commit own c hc (hP (own, c) (hsuffix.subset List.mem_cons_self))

omit [Raises π ε] in
theorem outside_bind_keeps {I : κ → Prop} (hkeeps : Keeps R P I)
    {x : EStateM ε (Session κ W π L) α} {f : α → EStateM ε (Session κ W π L) β}
    (hx : Outside R P I x) (hf : ∀ a, Outside R P I (f a)) : Outside R P I (x >>= f) := by
  intro s hw hown hI
  rw [wp_bind]
  refine wp_mono (hx s hw hown hI) (fun a t h => ?_) (fun _ _ h => h)
  exact wp_mono (hf a t (hw.of_others h.others) h.own (h.keeps hkeeps hI)) (fun _ _ h' => h.trans h')
    (fun _ _ h' => h.trans h')

omit [Raises π ε] in
theorem outside_tryCatch_keeps {I : κ → Prop} (hkeeps : Keeps R P I)
    {x : EStateM ε (Session κ W π L) α} {handle : ε → EStateM ε (Session κ W π L) α}
    (hx : Outside R P I x) (hhandle : ∀ e, Outside R P I (handle e)) :
    Outside R P I (tryCatch x handle) := by
  intro s hw hown hI
  rw [wp_tryCatch]
  refine wp_mono (hx s hw hown hI) (fun _ _ h => h) (fun e t h => ?_)
  exact wp_mono (hhandle e t (hw.of_others h.others) h.own (h.keeps hkeeps hI))
    (fun _ _ h' => h.trans h') (fun _ _ h' => h.trans h')

omit [Raises π ε] in
theorem outside_map {x : EStateM ε (Session κ W π L) α} {f : α → β} (hx : Outside R P pre x) :
    Outside R P pre (f <$> x) := by
  intro s hw hown hpre
  rw [wp_map]
  exact hx s hw hown hpre

/-- A query that is its own transaction. -/
theorem outside_query (label : L) (read : κ → α) :
    Outside R P pre (query label read : EStateM ε (Session κ W π L) α) := by
  intro s hw hown _
  have hran : Ran R P s (s.reading label s.next) := ran_of_follows (follows_reading hw label) hown
  exact wp_query (fun _ => hran) hran

/-- The rule for a transaction: what its body leaves in its writes must satisfy `P` at the commit. -/
theorem outside_transaction {body : EStateM ε (Session κ W π L) α} (hbody : Inside R body)
    (hP : ∀ s : Session κ W π L, s.Within R → s.own = [] → pre s.committed →
      wp body (fun _ t => P t.own t.next) (fun _ _ => True) s) :
    Outside R P pre (transaction body) := by
  intro s hw hown hpre
  refine wp_transaction (wp_mono (wp_and (hbody s hw) (hP s hw hown hpre)) ?_ ?_)
  · intro a t h
    obtain ⟨hfollows, hcommit⟩ := h
    obtain ⟨added, hseen, hnone⟩ := hfollows.log
    have hnext : Drift R s.committed t.next :=
      hfollows.drift.trans (drift_next (hw.of_others hfollows.others))
    have hdone : Ran R P s (t.committing t.next) := by
      refine ⟨hfollows.others, rfl, .commit t.own t.next :: added,
        by simp [Session.committing, hseen], ?_, ?_⟩
      · rw [commits_commit, hnone]
        exact (Evolves.start.others hnext).commit t.own
      · intro entry he
        rw [commits_commit, hnone, List.mem_singleton] at he
        rw [he]
        exact hcommit
    have hundone : Ran R P s (t.uncommitted t.next) := by
      refine ⟨hfollows.others, rfl, added, hseen, ?_, by simp [hnone]⟩
      rw [hnone]
      exact .others .start hnext
    exact ⟨hdone, fun _ => hdone, fun _ => hundone⟩
  · intro e t h
    exact ran_of_follows (h.1.trans ⟨rfl, .refl, [], rfl, rfl⟩) rfl

end Millpond.ReadCommitted
