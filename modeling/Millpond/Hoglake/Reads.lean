import Millpond.Hoglake.Steps

set_option autoImplicit false

/-! # Reads, DDL and reconciliation as steps

Everything the sink does before the upload: one lemma per function, saying which steps it takes
however it ends. A process that dies leaves a world that only grew. -/

namespace Millpond.Hoglake

open Prog

variable {ρ V : Type} {cfg : SinkConfig}

/-! ## Program steps on the state -/

section

variable {Q : PUnit → St ρ → Prop} {E : Raised → St ρ → Prop}

@[simp] theorem wp_raise {α : Type} {Q : α → St ρ → Prop} (e : Error) :
    wp (raise e : M ρ α) Q E = E ⟨e, []⟩ := rfl

@[simp] theorem wp_emit (e : Event) : wp (emit e : M ρ PUnit) Q E = fun s => Q ⟨⟩ (s.note e) := rfl

@[simp] theorem wp_onSink (f : Sink → Sink) :
    wp (onSink f : M ρ PUnit) Q E = fun s => Q ⟨⟩ { s with sink := f s.sink } := rfl

@[simp] theorem wp_onWorld (f : World ρ → World ρ) :
    wp (onWorld f : M ρ PUnit) Q E = fun s => Q ⟨⟩ { s with world := f s.world } := rfl

@[simp] theorem wp_seedHandle (info : TableInfo) :
    wp (seedHandle info : M ρ PUnit) Q E = fun s => Q ⟨⟩ (s.seed info) := rfl

/-- The turn the next call takes. -/
def St.turn (s : St ρ) : Turn := s.world.turns s.world.turn

@[simp] theorem wp_takeTurn {Q : Turn → St ρ → Prop} :
    wp (takeTurn : M ρ Turn) Q E = fun s =>
      Q s.turn (s.moved s.world.nextTurn (noteResponse s.turn s.sink.retryAfter)) := rfl

theorem wp_tryHoglake {α : Type} {Q : α → St ρ → Prop} (x : M ρ α)
    (handler : HoglakeError → M ρ α) :
    wp (tryHoglake x handler) Q E = wp x Q (fun r s =>
      match r.error with
      | .hoglake e => wp (handler e) Q E s
      | _ => E r s) := by
  unfold tryHoglake
  rw [wp_tryCatch]
  congr
  funext r s
  cases r.error <;> rfl

end

/-! ## How a function ends -/

/-- An exception leaves `R`; a dead process leaves a world that grew. -/
def Fails (R : St ρ → St ρ → Prop) (s : St ρ) (r : Raised) (s' : St ρ) : Prop :=
  if r.error = .killed then s.world.Grows s'.world else R s s'

theorem Fails.of {R : St ρ → St ρ → Prop} {s s' : St ρ} {r : Raised} (h : R s s')
    (hgrows : s.world.Grows s'.world) : Fails R s r s' := by
  unfold Fails
  split
  · exact hgrows
  · exact h

theorem Fails.mono {R R' : St ρ → St ρ → Prop} {s s' : St ρ} {r : Raised} (h : Fails R s r s')
    (hR : R s s' → R' s s') : Fails R' s r s' := by
  unfold Fails at h ⊢
  split
  · next hk => rwa [if_pos hk] at h
  · next hk => exact hR (by rwa [if_neg hk] at h)

/-- A failure after some steps. -/
theorem Fails.after {R R' : St ρ → St ρ → Prop} {s s₁ s' : St ρ} {r : Raised}
    (h : Fails R s₁ r s') (hgrows : s.world.Grows s₁.world) (hR : R s₁ s' → R' s s') :
    Fails R' s r s' := by
  unfold Fails at h ⊢
  split
  · next hk =>
      rw [if_pos hk] at h
      exact hgrows.trans h
  · next hk => exact hR (by rwa [if_neg hk] at h)

/-- The payload held, with the row count and the identity it is held for. -/
def Sink.held (sink : Sink) : Option Payload × ℕ × Option Identity :=
  (sink.prepared, sink.preparedRows, sink.preparedOffsets)

variable (cfg) in
/-- Steps that touch neither the table held nor the payload. -/
structure Standing (s s' : St ρ) : Prop where
  steps : Steps cfg s s'
  table : s'.sink.table = s.sink.table
  tableUuid : s'.sink.tableUuid = s.sink.tableUuid
  held : s'.sink.held = s.sink.held

theorem Standing.refl (s : St ρ) : Standing cfg s s := ⟨.refl, rfl, rfl, rfl⟩

theorem Standing.trans {s s' s'' : St ρ} (h : Standing cfg s s') (h' : Standing cfg s' s'') :
    Standing cfg s s'' :=
  ⟨h.steps.trans h'.steps, h'.table.trans h.table, h'.tableUuid.trans h.tableUuid,
    h'.held.trans h.held⟩

theorem Standing.prepared {s s' : St ρ} (h : Standing cfg s s') :
    s'.sink.prepared = s.sink.prepared := congrArg Prod.fst h.held

theorem Standing.grows {s s' : St ρ} (h : Standing cfg s s') : s.world.Grows s'.world :=
  h.steps.grows

variable (cfg) in
/-- Reads and DDL: steps that do not touch the verdict either. -/
structure Quiet (s s' : St ρ) : Prop extends Standing cfg s s' where
  reconciled : s'.sink.reconciledSpecs = s.sink.reconciledSpecs

theorem Quiet.refl (s : St ρ) : Quiet cfg s s := ⟨.refl s, rfl⟩

theorem Quiet.trans {s s' s'' : St ρ} (h : Quiet cfg s s') (h' : Quiet cfg s' s'') :
    Quiet cfg s s'' :=
  ⟨h.toStanding.trans h'.toStanding, h'.reconciled.trans h.reconciled⟩

theorem Quiet.grows {s s' : St ρ} (h : Quiet cfg s s') : s.world.Grows s'.world := h.steps.grows

theorem Quiet.moved (s : St ρ) {w : World ρ} (h : s.world.Evolves w) (retryAfter : Option ℚ) :
    Quiet cfg s (s.moved w retryAfter) :=
  ⟨⟨.single (.world w retryAfter h), rfl, rfl, rfl⟩, rfl⟩

theorem Quiet.adopt (s : St ρ) {info : TableInfo} (declared : Bool)
    (h : s.world.net.server.Honest info) : Quiet cfg s (s.adopt info declared) :=
  ⟨⟨.single (.adopt info declared h), rfl, rfl, rfl⟩, rfl⟩

theorem Quiet.resolve (s : St ρ) {info : TableInfo} (htable : s.sink.table = false)
    (hrec : s.sink.reconciledSpecs = none) (h : s.world.net.server.Honest info) :
    Quiet cfg s (s.resolve info) :=
  ⟨⟨.single (.resolve info htable hrec h), rfl, rfl, rfl⟩, rfl⟩

variable (cfg) in
/-- From every state in `P`, the program takes quiet steps, however it ends. -/
def Does {α : Type} (P : St ρ → Prop) (x : M ρ α) : Prop :=
  ∀ s, P s → wp x (fun _ s' => Quiet cfg s s') (Fails (Quiet cfg) s) s

variable (cfg) in
/-- Quiet steps keep the condition. -/
def Kept (P : St ρ → Prop) : Prop := ∀ s s', Quiet cfg s s' → P s → P s'

theorem kept_true : Kept cfg fun _ : St ρ => True := fun _ _ _ _ => trivial

section

variable {α β : Type} {P : St ρ → Prop}

theorem Does.pure (a : α) : Does cfg P (Pure.pure a : M ρ α) := fun s _ => .refl s

theorem Does.raise (e : Error) : Does cfg P (Hoglake.raise e : M ρ α) :=
  fun s _ => .of (.refl s) (.refl _)

theorem Does.get : Does cfg P (MonadStateOf.get : M ρ (St ρ)) := fun s _ => .refl s

theorem Does.bind (hP : Kept cfg P) {x : M ρ α} {f : α → M ρ β} (hx : Does cfg P x)
    (hf : ∀ a, Does cfg P (f a)) : Does cfg P (x >>= f) := by
  intro s hs
  rw [wp_bind]
  refine wp_mono (hx s hs) (fun a s₁ h₁ => ?_) (fun _ _ h => h)
  exact wp_mono (hf a s₁ (hP s s₁ h₁ hs)) (fun _ _ h => h₁.trans h)
    (fun _ _ h => h.after h₁.grows h₁.trans)

theorem Does.map (f : α → β) {x : M ρ α} (hx : Does cfg P x) : Does cfg P (f <$> x) := by
  intro s hs
  rw [wp_map]
  exact hx s hs

theorem Does.tryHoglake (hP : Kept cfg P) {x : M ρ α} {handler : HoglakeError → M ρ α}
    (hx : Does cfg P x) (hhandler : ∀ e, Does cfg P (handler e)) :
    Does cfg P (Hoglake.tryHoglake x handler) := by
  intro s hs
  rw [wp_tryHoglake]
  refine wp_mono (hx s hs) (fun _ _ h => h) (fun r s₁ h₁ => ?_)
  cases hr : r.error with
  | hoglake e =>
      have hq : Quiet cfg s s₁ := by
        unfold Fails at h₁
        rwa [if_neg (by simp [hr])] at h₁
      exact wp_mono (hhandler e s₁ (hP s s₁ hq hs)) (fun _ _ h => hq.trans h)
        (fun _ _ h => h.after hq.grows hq.trans)
  | _ => exact h₁

theorem Does.ite {c : Prop} [Decidable c] {x y : M ρ α} (hx : Does cfg P x) (hy : Does cfg P y) :
    Does cfg P (if c then x else y) := by
  split
  · exact hx
  · exact hy

end

/-! ## Calls -/

theorem World.evolves_nextTurn (w : World ρ) : w.Evolves w.nextTurn :=
  ⟨Net.evolves_moves _ _, rfl, rfl, rfl, rfl⟩

/-- A transition of the server that writes no receipt. -/
theorem World.evolves_onServer {w : World ρ} {f : Server → Server}
    (h : w.net.server.Evolves (f w.net.server))
    (hledger : (f w.net.server).ledger = w.net.server.ledger) : w.Evolves (w.onServer f) :=
  ⟨.of_server h hledger, rfl, rfl, rfl, rfl⟩

/-- A call moves the world, answered or not; its exceptions carry no uploads. -/
theorem call_spec {α : Type} {handle : World ρ → Except HoglakeError (α × World ρ)}
    (hhandle : ∀ w a w', handle w = .ok (a, w') → w.Evolves w') (s : St ρ) :
    wp (call handle)
      (fun a s' => ∃ w w' retryAfter, s.world.Evolves w ∧ handle w = .ok (a, w') ∧
        s' = s.moved w' retryAfter)
      (fun r s' => r.uploadedUris = [] ∧ ∃ w retryAfter, s.world.Evolves w ∧
        s' = s.moved w retryAfter) s := by
  have hturn : s.world.Evolves s.world.nextTurn := s.world.evolves_nextTurn
  have hstays : ∀ hint, ∃ w retryAfter, s.world.Evolves w ∧
      s.moved s.world.nextTurn hint = s.moved w retryAfter := fun hint => ⟨_, hint, hturn, rfl⟩
  have hsettle : ∀ (handling : Handling) (hint : Option ℚ) {E : Raised → St ρ → Prop},
      wp (settle handling (handle s.world.nextTurn))
        (fun _ s' => True ∧ ∃ w retryAfter, s.world.Evolves w ∧
          s' = s.moved w retryAfter) E
        (s.moved s.world.nextTurn hint) := by
    intro handling hint E
    cases handling with
    | now =>
        cases hh : handle s.world.nextTurn with
        | error _ => exact ⟨trivial, hstays hint⟩
        | ok r => exact ⟨trivial, r.2, hint, hturn.trans (hhandle _ r.1 r.2 hh), rfl⟩
    | later => exact ⟨trivial, hstays hint⟩
    | never => exact ⟨trivial, hstays hint⟩
  unfold call
  simp only [wp_bind, wp_takeTurn, wp_get]
  cases s.turn.fate with
  | answered =>
      show wp (deliverAnswer (handle s.world.nextTurn)) _ _ _
      unfold deliverAnswer
      cases hh : handle s.world.nextTurn with
      | error _ => exact ⟨rfl, hstays _⟩
      | ok r => exact ⟨s.world.nextTurn, r.2, _, hturn, hh, rfl⟩
  | refused _ => exact ⟨rfl, hstays _⟩
  | lost handling =>
      simp only [wp_bind, wp_raise]
      exact hsettle handling _
  | failed e handling =>
      simp only [wp_bind, wp_raise]
      exact hsettle handling _
  | killed handling =>
      simp only [wp_bind, wp_raise]
      exact hsettle handling _

theorem does_call {α : Type} {handle : World ρ → Except HoglakeError (α × World ρ)}
    (hhandle : ∀ w a w', handle w = .ok (a, w') → w.Evolves w') (P : St ρ → Prop) :
    Does cfg P (call handle) := by
  intro s _
  refine wp_mono (call_spec hhandle s) ?_ ?_
  · rintro a _ ⟨w, w', hint, hw, hh, rfl⟩
    exact Quiet.moved s (hw.trans (hhandle w a w' hh)) hint
  · rintro r _ ⟨-, w, hint, hw, rfl⟩
    exact .of (Quiet.moved s hw hint) hw.grows

theorem answerRead_ok {w w' : World ρ} {info : TableInfo} (h : answerRead w = .ok (info, w')) :
    w' = w ∧ w.net.server.Honest info := by
  unfold answerRead at h
  cases hread : w.net.server.read with
  | none => simp [hread] at h
  | some i =>
      simp only [hread, Except.ok.injEq, Prod.mk.injEq] at h
      obtain ⟨rfl, rfl⟩ := h
      exact ⟨rfl, Server.honest_read hread⟩

theorem answerRead_evolves (w : World ρ) (info : TableInfo) (w' : World ρ)
    (h : answerRead w = .ok (info, w')) : w.Evolves w' := by
  rw [(answerRead_ok h).1]
  exact .refl w

theorem Server.alter_ledger {s s' : Server} {ops : List AlterOp} (h : s.alter ops = some s') :
    s'.ledger = s.ledger := by
  unfold Server.alter at h
  cases htable : s.table with
  | none => simp [htable] at h
  | some t =>
      simp only [htable, Option.map_eq_some_iff] at h
      obtain ⟨shape, -, rfl⟩ := h
      exact (Server.alterTo_some _ htable).2.2.2.1

theorem answerAlter_ok {ops : List AlterOp} {w w' : World ρ} {info : TableInfo}
    (h : answerAlter ops w = .ok (info, w')) :
    w.Evolves w' ∧ w'.net.server.Honest info := by
  unfold answerAlter at h
  cases halter : w.net.server.alter ops with
  | none => simp [halter] at h
  | some server =>
      cases hread : server.read with
      | none => simp [halter, hread] at h
      | some i =>
          simp only [halter, hread, Except.ok.injEq, Prod.mk.injEq] at h
          obtain ⟨rfl, rfl⟩ := h
          exact ⟨World.evolves_onServer (Server.alter_spec halter).1 (Server.alter_ledger halter),
            Server.honest_read hread⟩

theorem answerCreate_ok {fields : List (String × HogType)} {w w' : World ρ} {info : TableInfo}
    (h : answerCreate fields w = .ok (info, w')) : w.Evolves w' ∧ w'.net.server.Honest info := by
  unfold answerCreate at h
  split at h
  · exact absurd h (by simp)
  · simp only [Except.ok.injEq, Prod.mk.injEq] at h
    obtain ⟨rfl, rfl⟩ := h
    exact ⟨World.evolves_onServer (Server.evolves_createTable _ _) rfl,
      Server.honest_of_table (t := ⟨w.net.server.nextUuid, _, w.net.server.snapshot + 1⟩) rfl
        (Nat.le_refl _)⟩

theorem does_readNamespace (P : St ρ → Prop) : Does cfg P (readNamespace : M ρ PUnit) := by
  refine does_call (fun w a w' h => ?_) P
  split at h
  · simp only [Except.ok.injEq, Prod.mk.injEq] at h
    rw [← h.2]
    exact .refl w
  · exact absurd h (by simp)

theorem does_createNamespace (P : St ρ → Prop) : Does cfg P (createNamespace : M ρ PUnit) := by
  refine does_call (fun w a w' h => ?_) P
  split at h
  · exact absurd h (by simp)
  · simp only [Except.ok.injEq, Prod.mk.injEq] at h
    rw [← h.2]
    exact World.evolves_onServer (Server.evolves_createNamespace _) rfl

/-! ## Adopting a read -/

variable (cfg) in
/-- A read or a receipt is in the handle, and the sink is about to adopt it. -/
def Seeded (s : St ρ) (info : TableInfo) (s' : St ρ) : Prop :=
  ∃ s₁, Quiet cfg s s₁ ∧ s₁.world.net.server.Honest info ∧ s' = s₁.seed info

variable (cfg) in
/-- The program ends with a read in the handle. -/
def Seeds (x : M ρ TableInfo) : Prop :=
  ∀ s, wp x (Seeded cfg s) (Fails (Quiet cfg) s) s

theorem seeds_tableRead : Seeds cfg (tableRead : M ρ TableInfo) := by
  intro s
  unfold tableRead
  simp only [wp_bind, wp_seedHandle, wp_pure]
  refine wp_mono (call_spec answerRead_evolves s) ?_ ?_
  · rintro info _ ⟨w, w', hint, hw, hh, rfl⟩
    obtain ⟨rfl, hhonest⟩ := answerRead_ok hh
    exact ⟨_, Quiet.moved s hw hint, hhonest, rfl⟩
  · rintro r _ ⟨-, w, hint, hw, rfl⟩
    exact .of (Quiet.moved s hw hint) hw.grows

theorem seeds_tableAlter (ops : List AlterOp) : Seeds cfg (tableAlter ops : M ρ TableInfo) := by
  intro s
  unfold tableAlter
  simp only [wp_bind, wp_seedHandle, wp_pure]
  refine wp_mono (call_spec (fun w a w' h => (answerAlter_ok h).1) s) ?_ ?_
  · rintro info _ ⟨w, w', hint, hw, hh, rfl⟩
    obtain ⟨hw', hhonest⟩ := answerAlter_ok hh
    exact ⟨_, Quiet.moved s (hw.trans hw') hint, hhonest, rfl⟩
  · rintro r _ ⟨-, w, hint, hw, rfl⟩
    exact .of (Quiet.moved s hw hint) hw.grows

/-- An alter that lost a race is answered by a read. -/
theorem Seeds.tryHoglake {x : M ρ TableInfo} {handler : HoglakeError → M ρ TableInfo}
    (hx : Seeds cfg x) (hhandler : ∀ e, Seeds cfg (handler e)) :
    Seeds cfg (Hoglake.tryHoglake x handler) := by
  intro s
  rw [wp_tryHoglake]
  refine wp_mono (hx s) (fun _ _ h => h) (fun r s₁ h₁ => ?_)
  cases hr : r.error with
  | hoglake e =>
      have hq : Quiet cfg s s₁ := by
        unfold Fails at h₁
        rwa [if_neg (by simp [hr])] at h₁
      refine wp_mono (hhandler e s₁) ?_ (fun _ _ h => h.after hq.grows hq.trans)
      rintro info s₂ ⟨s₃, hq', hhonest, rfl⟩
      exact ⟨s₃, hq.trans hq', hhonest, rfl⟩
  | _ => exact h₁

theorem Seeds.raise (e : Error) : Seeds cfg (Hoglake.raise e : M ρ TableInfo) :=
  fun s => .of (.refl s) (.refl _)

theorem Seeds.ite {c : Prop} [Decidable c] {x y : M ρ TableInfo} (hx : Seeds cfg x)
    (hy : Seeds cfg y) : Seeds cfg (if c then x else y) := by
  split
  · exact hx
  · exact hy

/-- Adopting what the handle was seeded with. -/
theorem wp_adoptInfo (info : TableInfo) (declared : Bool) (s : St ρ) {Q : PUnit → St ρ → Prop}
    {E : Raised → St ρ → Prop} (h : Q ⟨⟩ (s.adopt info declared)) :
    wp (adoptInfo info declared) Q E (s.seed info) := by
  unfold adoptInfo
  simp only [wp_bind, wp_get, wp_onSink, wp_emit]
  exact h

/-- A read or an alter, adopted, and what follows. -/
theorem Does.adopting {α : Type} {P : St ρ → Prop} (hP : Kept cfg P) {x : M ρ TableInfo}
    (hx : Seeds cfg x) (declared : Bool) {f : TableInfo → M ρ α} (hf : ∀ info, Does cfg P (f info)) :
    Does cfg P (x >>= fun info => adoptInfo info declared >>= fun _ => f info) := by
  intro s hs
  simp only [wp_bind]
  refine wp_mono (hx s) ?_ (fun _ _ h => h)
  rintro info _ ⟨s₁, hq, hhonest, rfl⟩
  refine wp_adoptInfo info declared s₁ ?_
  have hq' : Quiet cfg s (s₁.adopt info declared) := hq.trans (Quiet.adopt s₁ declared hhonest)
  exact wp_mono (hf info _ (hP _ _ hq' hs)) (fun _ _ h => hq'.trans h)
    (fun _ _ h => h.after hq'.grows hq'.trans)

theorem Does.adopt {P : St ρ → Prop} {x : M ρ TableInfo} (hx : Seeds cfg x)
    (declared : Bool) : Does cfg P (x >>= fun info => adoptInfo info declared) := by
  intro s _
  simp only [wp_bind]
  refine wp_mono (hx s) ?_ (fun _ _ h => h)
  rintro info _ ⟨s₁, hq, hhonest, rfl⟩
  exact wp_adoptInfo info declared s₁ (hq.trans (Quiet.adopt s₁ declared hhonest))

/-! ## Schema evolution -/

theorem does_addColumn (name : String) (type : HogType) (P : St ρ → Prop) (hP : Kept cfg P) :
    Does cfg P (addColumn name type) := by
  unfold addColumn
  refine Does.tryHoglake hP (Does.adopting hP (seeds_tableAlter _) false fun _ => Does.pure _) ?_
  intro e
  refine Does.ite (Does.raise _) (Does.ite ?_ (Does.pure _))
  exact Does.adopting hP seeds_tableRead false fun _ => Does.bind hP Does.get fun _ => Does.pure _

theorem does_addEach (P : St ρ → Prop) (hP : Kept cfg P) (fields : List (String × HogType)) :
    Does cfg P (addEach fields) := by
  induction fields with
  | nil => exact Does.pure _
  | cons field rest ih =>
      exact Does.bind hP (does_addColumn field.1 field.2 P hP)
        fun live => Does.bind hP ih fun failed => Does.pure _

theorem does_addBatched (P : St ρ → Prop) (hP : Kept cfg P) (addable : List (String × HogType)) :
    Does cfg P (addBatched addable) := by
  unfold addBatched
  refine Does.ite (Does.tryHoglake hP ?_ fun e => Does.ite (Does.raise _) (Does.pure _))
    (Does.pure _)
  exact Does.adopting hP (seeds_tableAlter _) false fun _ => Does.pure _

theorem does_addColumns (P : St ρ → Prop) (hP : Kept cfg P) (fields : List (BatchColumn ρ V)) :
    Does cfg P (addColumns fields) := by
  unfold addColumns
  refine Does.ite (Does.pure _) (Does.bind hP (does_addBatched P hP _) fun batched => ?_)
  exact Does.ite (Does.pure _)
    (Does.bind hP (does_addEach P hP _) fun failed => Does.pure _)

theorem does_promoteColumn (name : String) (toType : HogType) (P : St ρ → Prop)
    (hP : Kept cfg P) : Does cfg P (promoteColumn name toType) := by
  unfold promoteColumn
  exact Does.tryHoglake hP (Does.adopt (seeds_tableAlter _) false)
    fun e => Does.ite (Does.adopt seeds_tableRead false) (Does.pure _)

theorem does_evolveColumn (P : St ρ → Prop) (hP : Kept cfg P) (c : BatchColumn ρ V) :
    Does cfg P (evolveColumn c) := by
  unfold evolveColumn
  refine Does.bind hP Does.get (fun s => ?_)
  split
  · exact Does.pure _
  · exact Does.pure _
  · refine Does.ite (Does.pure _) ?_
    split
    · exact Does.bind hP (does_promoteColumn _ _ P hP) fun _ => Does.pure _
    · exact Does.pure _

theorem does_evolveColumns (P : St ρ → Prop) (hP : Kept cfg P) (columns : List (BatchColumn ρ V)) :
    Does cfg P (evolveColumns columns) := by
  induction columns with
  | nil => exact Does.pure _
  | cons c rest ih =>
      exact Does.bind hP (does_evolveColumn P hP c) fun turn => Does.bind hP ih fun _ => Does.pure _

theorem does_rewriteColumns (be : Backend ρ V) (P : St ρ → Prop) (rewrites : List (String × HogType))
    (batch : Batch ρ V) : Does cfg P (rewriteColumns be rewrites batch) := by
  induction rewrites generalizing batch with
  | nil => exact Does.pure _
  | cons r rest ih =>
      unfold rewriteColumns
      cases rewriteColumn be r.1 r.2 batch with
      | none => exact Does.raise _
      | some batch => exact ih batch

theorem does_evolveAndAlign (be : Backend ρ V) (P : St ρ → Prop) (hP : Kept cfg P)
    (batch : Batch ρ V) : Does cfg P (evolveAndAlign be batch) := by
  unfold evolveAndAlign
  refine Does.bind hP Does.get fun s => Does.bind hP (does_addColumns P hP _) fun added => ?_
  refine Does.bind hP (does_evolveColumns P hP _) fun r => ?_
  obtain ⟨failed, rewrites⟩ := r
  dsimp only
  cases batch.dropColumns (added ++ failed) with
  | none => exact Does.raise _
  | some dropped =>
      refine Does.bind hP (does_rewriteColumns be P _ _) fun batch => ?_
      exact Does.bind hP Does.get fun s' => Does.pure _

end Millpond.Hoglake
