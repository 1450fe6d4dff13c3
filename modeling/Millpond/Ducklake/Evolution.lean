import Millpond.Ducklake.Schema

set_option autoImplicit false

/-! # Where the columns of a table come from

Against other pods that create columns between any two statements, and any failures: what each
function of the schema manager leaves of the table and of its cache, and by which names it creates
no column. -/

namespace Millpond.Ducklake

open Prog ReadCommitted

variable {lower : String → String} {α β : Type}

/-! ## Names of a table -/

/-- The table has a column of the name. -/
def Named (lower : String → String) (live : Columns) (name : String) : Prop :=
  NamedIn lower (live.getD []) name

instance (lower : String → String) (live : Columns) (name : String) :
    Decidable (Named lower live name) :=
  inferInstanceAs (Decidable (NamedIn lower _ _))

theorem namedIn_addMissing {columns : List Column} {c : Column} {name : String} :
    NamedIn lower (addMissing lower columns c) name ↔
      NamedIn lower columns name ∨ Same lower c.name name := by
  unfold addMissing
  split
  · next hthere =>
      constructor
      · exact Or.inl
      · rintro (h | hsame)
        · exact h
        · obtain ⟨d, hd, hdc⟩ := hthere
          exact ⟨d, hd, Eq.trans hdc hsame⟩
  · constructor
    · rintro ⟨d, hd, hdn⟩
      rcases List.mem_append.1 hd with hd | hd
      · exact Or.inl ⟨d, hd, hdn⟩
      · rw [List.mem_singleton.1 hd] at hdn
        exact Or.inr hdn
    · rintro (⟨d, hd, hdn⟩ | hsame)
      · exact ⟨d, List.mem_append_left _ hd, hdn⟩
      · exact ⟨c, List.mem_append_right _ (List.mem_singleton.2 rfl), hsame⟩

theorem namedIn_foldl_addMissing (new : List Column) :
    ∀ (columns : List Column) (name : String),
      NamedIn lower (new.foldl (addMissing lower) columns) name ↔
        NamedIn lower columns name ∨ NamedIn lower new name := by
  induction new with
  | nil =>
      intro columns name
      constructor
      · exact Or.inl
      · rintro (h | ⟨c, hc, -⟩)
        · exact h
        · exact absurd hc List.not_mem_nil
  | cons c rest ih =>
      intro columns name
      have hcons : NamedIn lower (c :: rest) name ↔
          Same lower c.name name ∨ NamedIn lower rest name := by
        simp [NamedIn]
      rw [List.foldl_cons, ih, namedIn_addMissing, hcons, or_assoc]

theorem named_createColumns {new : List Column} {live : Columns} {name : String} :
    Named lower (createColumns lower new live) name ↔
      Named lower live name ∨ NamedIn lower new name := by
  unfold createColumns
  split
  · next hnone =>
      rw [List.isEmpty_iff.1 hnone]
      simp [NamedIn]
  · exact namedIn_foldl_addMissing new _ name

theorem named_setDataType {live : Columns} {column type name : String} :
    Named lower (Ddl.apply lower (.setDataType column type) live) name ↔ Named lower live name := by
  cases live with
  | none => exact Iff.rfl
  | some columns =>
      show NamedIn lower (columns.map _) name ↔ NamedIn lower columns name
      unfold NamedIn
      simp only [List.mem_map, exists_exists_and_eq_and]
      constructor
      · rintro ⟨c, hc, hsame⟩
        refine ⟨c, hc, ?_⟩
        split at hsame
        · exact hsame
        · exact hsame
      · rintro ⟨c, hc, hsame⟩
        refine ⟨c, hc, ?_⟩
        split
        · exact hsame
        · exact hsame

/-! ## Where the columns come from -/

/-- Other pods created a column of the name before a statement in `[since, until)`. -/
def OthersCreated (lower : String → String) (schedule : ℕ → List Column) (since till : ℕ)
    (name : String) : Prop :=
  ∃ n, since ≤ n ∧ n < till ∧ NamedIn lower (schedule n) name

/-- The DDL creates no column by a spared name. -/
def Ddl.Spares (lower : String → String) (spared : String → Prop) (ddl : Ddl) : Prop :=
  ∀ name, spared name → ∀ live, Named lower (ddl.apply lower live) name → Named lower live name

/-- Nothing is spared. -/
def noName : String → Prop := fun _ => False

theorem spares_noName (ddl : Ddl) : ddl.Spares lower noName := fun _ hname => hname.elim

theorem spares_setDataType (spared : String → Prop) (column type : String) :
    (Ddl.setDataType column type).Spares lower spared := fun _ _ _ => named_setDataType.1

theorem spares_addColumn {spared : String → Prop} {c : Column}
    (hspared : ∀ name, spared name → ¬ Same lower c.name name) :
    (Ddl.addColumn c).Spares lower spared := by
  intro name hname live h
  cases live with
  | none => exact h
  | some live => exact (namedIn_addMissing.1 h).resolve_right (hspared name hname)

/-- DDL takes no name away. -/
theorem named_apply_of_named {ddl : Ddl} {live : Columns} {name : String} (h : Named lower live name) :
    Named lower (ddl.apply lower live) name := by
  cases live with
  | none => exact absurd h (by simp [Named, NamedIn])
  | some live =>
      cases ddl with
      | createTable columns => exact h
      | addColumn c => exact namedIn_addMissing.2 (Or.inl h)
      | setDataType column type => exact named_setDataType.2 h

/-- The other pods only create columns, by this schedule. -/
def Pods (schedule : ℕ → List Column) (s : DuckLakeSink lower) : Prop :=
  s.session.others = fun n _ lake => ⟨createColumns lower (schedule n) lake.columns⟩

/-- Between two statements: nothing is open, and every cached column is live. -/
structure Standing (schedule : ℕ → List Column) (s : DuckLakeSink lower) : Prop where
  pods : Pods schedule s
  own : s.session.own = []
  known : ∀ entry ∈ s.knownColumns, Named lower s.live entry.1

/-- The session of a sink. -/
abbrev DuckSession (lower : String → String) := Session (Lake lower) Ddl DuckdbError DuckStatement

/-- The columns that came from `s` to `t`: those the other pods created, and by the spared names no
    others. -/
structure Tracks (schedule : ℕ → List Column) (spared : String → Prop) (s t : DuckSession lower) :
    Prop where
  clock : s.clock ≤ t.clock
  grows : ∀ name, Named lower s.committed.columns name → Named lower t.committed.columns name
  others : ∀ name, OthersCreated lower schedule s.clock t.clock name →
    Named lower t.committed.columns name
  spared : ∀ name, spared name → Named lower t.committed.columns name →
    Named lower s.committed.columns name ∨ OthersCreated lower schedule s.clock t.clock name

variable {schedule : ℕ → List Column} {spared : String → Prop}

theorem OthersCreated.mono {since since' till till' : ℕ} {name : String}
    (h : OthersCreated lower schedule since till name) (hsince : since' ≤ since) (htill : till ≤ till') :
    OthersCreated lower schedule since' till' name := by
  obtain ⟨n, hle, hlt, hn⟩ := h
  exact ⟨n, hsince.trans hle, hlt.trans_le htill, hn⟩

theorem not_othersCreated (schedule : ℕ → List Column) (n : ℕ) (name : String) :
    ¬ OthersCreated lower schedule n n name := by
  rintro ⟨m, hle, hlt, -⟩
  omega

/-- Only the clock and the columns of a session matter. -/
theorem tracks_same {s t : DuckSession lower} (hclock : t.clock = s.clock)
    (hlive : t.committed = s.committed) : Tracks schedule spared s t := by
  refine ⟨hclock.ge, fun name h => ?_, fun name h => ?_, fun name _ h => ?_⟩
  · rwa [hlive]
  · rw [hclock] at h
    exact absurd h (not_othersCreated schedule _ name)
  · rw [hlive] at h
    exact Or.inl h

theorem Tracks.refl (s : DuckSession lower) : Tracks schedule spared s s := tracks_same rfl rfl

theorem Tracks.trans {s t u : DuckSession lower} (h : Tracks schedule spared s t)
    (h' : Tracks schedule spared t u) : Tracks schedule spared s u := by
  refine ⟨h.clock.trans h'.clock, fun name hs => h'.grows name (h.grows name hs), ?_, ?_⟩
  · rintro name ⟨n, hle, hlt, hn⟩
    by_cases hmid : n < t.clock
    · exact h'.grows name (h.others name ⟨n, hle, hmid, hn⟩)
    · exact h'.others name ⟨n, by omega, hlt, hn⟩
  · intro name hname hu
    rcases h'.spared name hname hu with ht | hothers
    · exact (h.spared name hname ht).imp id fun hothers => hothers.mono le_rfl h'.clock
    · exact Or.inr (hothers.mono h.clock le_rfl)

/-! ## The rules of the sink -/

structure Goes (schedule : ℕ → List Column) (spared : String → Prop) (s t : DuckLakeSink lower) :
    Prop where
  standing : Standing schedule t
  tracks : Tracks schedule spared s.session t.session

variable {s t u : DuckLakeSink lower}

theorem Goes.refl (hs : Standing schedule s) : Goes schedule spared s s := ⟨hs, Tracks.refl _⟩

theorem Goes.trans (h : Goes schedule spared s t) (h' : Goes schedule spared t u) :
    Goes schedule spared s u :=
  ⟨h'.standing, h.tracks.trans h'.tracks⟩

theorem Goes.grows (h : Goes schedule spared s t) {name : String} (hname : Named lower s.live name) :
    Named lower t.live name := h.tracks.grows name hname

/-- It is no matter if nothing was to be spared. -/
theorem Goes.weaken (h : Goes schedule spared s t) : Goes schedule noName s t :=
  ⟨h.standing, h.tracks.clock, h.tracks.grows, h.tracks.others, fun _ hname => hname.elim⟩

/-- However `x` ends, the sink stands and its columns are accounted for; ending normally gives
    `Q`. -/
def Does (schedule : ℕ → List Column) (spared : String → Prop) (s : DuckLakeSink lower)
    (x : SinkM lower α) (Q : α → DuckLakeSink lower → Prop) : Prop :=
  wp x (fun a t => Goes schedule spared s t ∧ Q a t) (fun _ t => Goes schedule spared s t) s

variable {x : SinkM lower α} {P Q : α → DuckLakeSink lower → Prop}

theorem Does.mono (h : Does schedule spared s x P) (hPQ : ∀ a t, Goes schedule spared s t → P a t → Q a t) :
    Does schedule spared s x Q := Along.mono h hPQ

theorem rely_goes :
    Rely (fun s : DuckLakeSink lower => Standing schedule s) (Goes schedule spared) :=
  ⟨fun _ => Goes.refl, fun _ _ _ => Goes.trans, fun _ _ h => h.standing⟩

theorem does_pure (hs : Standing schedule s) {a : α} (h : Q a s) : Does schedule spared s (pure a) Q :=
  rely_goes.pure hs h

theorem does_throw (hs : Standing schedule s) (e : WriteError) :
    Does schedule spared s (throw e : SinkM lower α) Q := rely_goes.throw hs e

theorem does_bind {f : α → SinkM lower β} {Q : β → DuckLakeSink lower → Prop}
    (hx : Does schedule spared s x P)
    (hf : ∀ a t, Goes schedule spared s t → P a t → Does schedule spared t (f a) Q) :
    Does schedule spared s (x >>= f) Q := along_bind rely_goes.trans hx hf

theorem does_get_bind {f : DuckLakeSink lower → SinkM lower β}
    {Q : β → DuckLakeSink lower → Prop} (h : Does schedule spared s (f s) Q) :
    Does schedule spared s (get >>= f) Q := along_get_bind h

theorem does_tryCatch {handle : WriteError → SinkM lower α} (hx : Does schedule spared s x Q)
    (hhandle : ∀ e t, Goes schedule spared s t → Does schedule spared t (handle e) Q) :
    Does schedule spared s (tryCatch x handle) Q := along_tryCatch rely_goes.trans hx hhandle

theorem does_ite {c : Prop} [Decidable c] {y : SinkM lower α} (hx : c → Does schedule spared s x Q)
    (hy : ¬ c → Does schedule spared s y Q) : Does schedule spared s (if c then x else y) Q := along_ite hx hy

theorem does_map {f : α → β} {Q : β → DuckLakeSink lower → Prop}
    (hx : Does schedule spared s x fun a t => Q (f a) t) : Does schedule spared s (f <$> x) Q := along_map hx

/-- A change of the cache alone. -/
theorem does_modify {f : DuckLakeSink lower → DuckLakeSink lower}
    {Q : PUnit → DuckLakeSink lower → Prop} (hsession : (f s).session = s.session)
    (hstanding : Standing schedule (f s)) (h : Q ⟨⟩ (f s)) : Does schedule spared s (modify f) Q := by
  refine ⟨⟨hstanding, ?_⟩, h⟩
  rw [hsession]
  exact Tracks.refl _

/-! ## Statements -/

theorem othersCreated_succ (schedule : ℕ → List Column) (n : ℕ) (name : String) :
    OthersCreated lower schedule n (n + 1) name ↔ NamedIn lower (schedule n) name := by
  constructor
  · rintro ⟨m, hle, hlt, hm⟩
    have heq : m = n := by omega
    exact heq ▸ hm
  · exact fun h => ⟨n, Nat.le_refl n, Nat.lt_succ_self n, h⟩

/-- The others went on for one statement, and no DDL was committed. -/
theorem tracks_statement {s t : DuckSession lower} (hclock : t.clock = s.clock + 1)
    (hlive : t.committed = ⟨createColumns lower (schedule s.clock) s.committed.columns⟩) :
    Tracks schedule spared s t := by
  have hnames : ∀ name, Named lower t.committed.columns name ↔
      Named lower s.committed.columns name ∨ OthersCreated lower schedule s.clock t.clock name := by
    intro name
    rw [hlive, named_createColumns, hclock, othersCreated_succ]
  refine ⟨by omega, fun name h => (hnames name).2 (Or.inl h), fun name h => (hnames name).2 (Or.inr h),
    fun name _ h => (hnames name).1 h⟩

theorem next_eq {q : DuckSession lower}
    (hpods : q.others = fun n _ lake => ⟨createColumns lower (schedule n) lake.columns⟩) :
    q.next = ⟨createColumns lower (schedule q.clock) q.committed.columns⟩ := by
  unfold Session.next
  rw [hpods]

theorem goes_session (hs : Standing schedule s) {session : DuckSession lower}
    (hothers : session.others = s.session.others) (hown : session.own = [])
    (htracks : Tracks schedule spared s.session session) :
    Goes schedule spared s { s with session := session } := by
  refine ⟨⟨?_, hown, fun entry hentry => htracks.grows _ (hs.known entry hentry)⟩, htracks⟩
  show session.others = _
  rw [hothers]
  exact hs.pods

theorem does_readLake (hs : Standing schedule s) (label : DuckStatement) (read : Columns → α) :
    Does schedule spared s (readLake label read) (fun a t => a = read t.live ∧
      t.knownColumns = s.knownColumns) := by
  unfold Does readLake execute
  rw [wp_zoom]
  have hgoes : Goes schedule spared s { s with session := s.session.reading label s.session.next } :=
    goes_session hs rfl hs.own (tracks_statement rfl (next_eq hs.pods))
  refine wp_query (fun _ => hgoes) ⟨hgoes, ?_, rfl⟩
  rw [hs.own]
  rfl

theorem createColumns_isSome (new : List Column) {live : Columns} (h : live.isSome = true) :
    (createColumns lower new live).isSome = true := by
  unfold createColumns
  split
  · exact h
  · rfl

/-- A commit of DDL, after the others went on for one statement. -/
theorem tracks_commit {s t : DuckSession lower} {ddl : Ddl} (hspares : ddl.Spares lower spared)
    (hclock : t.clock = s.clock + 1)
    (hlive : t.committed =
      ⟨ddl.apply lower (createColumns lower (schedule s.clock) s.committed.columns)⟩) :
    Tracks schedule spared s t := by
  refine ⟨by omega, fun name h => ?_, fun name h => ?_, fun name hname h => ?_⟩
  · rw [hlive]
    exact named_apply_of_named (named_createColumns.2 (Or.inl h))
  · rw [hclock, othersCreated_succ] at h
    rw [hlive]
    exact named_apply_of_named (named_createColumns.2 (Or.inr h))
  · rw [hlive] at h
    rw [hclock, othersCreated_succ]
    exact named_createColumns.1 (hspares name hname _ h)

/-- The session whose next statement is the COMMIT of this DDL. -/
def DuckLakeSink.issued (s : DuckLakeSink lower) (label : DuckStatement) (ddl : Ddl) :
    DuckSession lower := (s.session.reading label s.session.next).writing [ddl]

/-- The sink after this DDL took effect. -/
def DuckLakeSink.applied (s : DuckLakeSink lower) (label : DuckStatement) (ddl : Ddl) :
    DuckLakeSink lower :=
  { s with session := (s.issued label ddl).committing (s.issued label ddl).next }

/-- The rule for a DDL statement: it is refused, or its COMMIT decides. -/
theorem wp_runDdl {label : DuckStatement} {ddl : Ddl} {Q : PUnit → DuckLakeSink lower → Prop}
    {E : WriteError → DuckLakeSink lower → Prop} (hown : s.session.own = [])
    (hrefused : ∀ e, s.session.fates s.session.clock ≠ .runs ∨
      s.session.next.columns.isNone = true ∧ ddl.alters = true →
        E e { s with session := (s.session.reading label s.session.next).rolledBack })
    (hdone : s.session.fates s.session.clock = .runs →
      s.session.fates (s.session.clock + 1) = .runs →
      (ddl.alters = true → s.session.next.columns.isSome = true) → Q ⟨⟩ (s.applied label ddl))
    (hlost : ∀ e e', s.session.fates s.session.clock = .runs →
      s.session.fates (s.session.clock + 1) = .unacknowledged e →
      (ddl.alters = true → s.session.next.columns.isSome = true) → E e' (s.applied label ddl))
    (hfail : ∀ e e', s.session.fates (s.session.clock + 1) = .fails e →
      E e' { s with session := (s.issued label ddl).uncommitted (s.issued label ddl).next }) :
    wp (runDdl label ddl) Q E s := by
  have hview : overlay s.session.own s.session.next = s.session.next := by
    rw [hown]
    rfl
  unfold runDdl execute
  rw [wp_zoom]
  refine wp_transaction_fated (wp_statement_fated (fun e hfate => hrefused _ (Or.inl hfate))
    (fun e hrun => ?_) fun _ writes hfate hrun => ?_)
  · rw [hview] at hrun
    split at hrun
    · next hnone => exact hrefused e (Or.inr (by simpa using hnone))
    · cases hrun
  · rw [hview] at hrun
    split at hrun
    · cases hrun
    · next hthere =>
        obtain ⟨-, rfl⟩ := Prod.mk.inj (Except.ok.inj hrun)
        have hthere : ddl.alters = true → s.session.next.columns.isSome = true := by
          intro halters
          rw [halters, Bool.and_true] at hthere
          cases hcolumns : s.session.next.columns with
          | none => exact absurd (by rw [hcolumns]; rfl) hthere
          | some columns => rfl
        exact ⟨fun hcommit => hdone hfate hcommit hthere, fun e hcommit => hlost e _ hfate hcommit hthere,
          fun e hcommit => hfail e _ hcommit⟩

section Statements

variable (hs : Standing schedule s) (label : DuckStatement) (ddl : Ddl)

include hs

theorem tracks_reading : Tracks schedule spared s.session (s.session.reading label s.session.next) :=
  tracks_statement rfl (next_eq hs.pods)

theorem tracks_issued : Tracks schedule spared s.session (s.issued label ddl) :=
  (tracks_reading hs label).trans (tracks_same rfl rfl)

theorem next_issued : (s.issued label ddl).next =
    ⟨createColumns lower (schedule (s.session.clock + 1)) s.session.next.columns⟩ := next_eq hs.pods

theorem goes_refused : Goes schedule spared s
    { s with session := (s.session.reading label s.session.next).rolledBack } :=
  goes_session hs rfl rfl ((tracks_reading hs label).trans (tracks_same rfl rfl))

theorem goes_uncommitted : Goes schedule spared s
    { s with session := (s.issued label ddl).uncommitted (s.issued label ddl).next } :=
  goes_session hs rfl rfl
    ((tracks_issued hs label ddl).trans (tracks_statement rfl (next_issued hs label ddl)))

theorem live_applied : (s.applied label ddl).live =
    ddl.apply lower (createColumns lower (schedule (s.session.clock + 1)) s.session.next.columns) := by
  have hown : (s.issued label ddl).own = [ddl] := by
    show s.session.own ++ [ddl] = [ddl]
    rw [hs.own]
    rfl
  show (overlay (s.issued label ddl).own (s.issued label ddl).next).columns = _
  rw [hown, next_issued hs]
  rfl

theorem goes_applied (hspares : ddl.Spares lower spared) :
    Goes schedule spared s (s.applied label ddl) :=
  goes_session hs rfl rfl ((tracks_issued hs label ddl).trans
    (tracks_commit hspares rfl (congrArg Lake.mk (live_applied hs label ddl))))

end Statements

/-- An `ADD COLUMN` that takes effect on a table leaves the column live. -/
theorem named_applied (hs : Standing schedule s) {c : Column} (label : DuckStatement)
    (hthere : s.session.next.columns.isSome = true) :
    Named lower (s.applied label (.addColumn c)).live c.name := by
  rw [live_applied hs]
  have hsome : (createColumns lower (schedule (s.session.clock + 1)) s.session.next.columns).isSome
      = true := createColumns_isSome _ hthere
  cases hlive : createColumns lower (schedule (s.session.clock + 1)) s.session.next.columns with
  | none =>
      rw [hlive] at hsome
      cases hsome
  | some live => exact namedIn_addMissing.2 (Or.inr rfl)

/-- DDL that commits by itself: before an `ADD COLUMN` returns, the table has the column. -/
theorem does_runDdl (hs : Standing schedule s) (label : DuckStatement) {ddl : Ddl}
    (hspares : ddl.Spares lower spared) :
    Does schedule spared s (runDdl label ddl)
      (fun _ t => ∀ c, ddl = .addColumn c → Named lower t.live c.name) := by
  refine wp_runDdl hs.own (fun _ _ => goes_refused hs label) (fun _ _ hthere => ?_)
    (fun _ _ _ _ _ => goes_applied hs label ddl hspares) fun _ _ _ => goes_uncommitted hs label ddl
  refine ⟨goes_applied hs label ddl hspares, ?_⟩
  rintro c rfl
  exact named_applied hs label (hthere rfl)

/-! ## The schema manager -/

/-- The cache may go on with entries that are live. -/
theorem does_setKnown (hs : Standing schedule s) {f : DuckLakeSink lower → DuckLakeSink lower}
    (hsession : (f s).session = s.session)
    (hknown : ∀ entry ∈ (f s).knownColumns, Named lower s.live entry.1) :
    Does schedule spared s (modify f) (fun _ _ => True) := by
  refine does_modify hsession ⟨?_, ?_, fun entry hentry => ?_⟩ trivial
  · unfold Pods
    rw [hsession]
    exact hs.pods
  · rw [hsession]
    exact hs.own
  · unfold DuckLakeSink.live
    rw [hsession]
    exact hknown entry hentry

theorem does_loadTableSchema (hs : Standing schedule s) :
    Does schedule spared s loadTableSchema (fun _ _ => True) := by
  unfold loadTableSchema
  refine does_tryCatch (does_bind (does_readLake hs _ _) fun rows t hgoes hrows => ?_)
    fun e t hgoes => ?_
  · refine does_setKnown hgoes.standing rfl fun entry hentry => ?_
    obtain ⟨c, hc, rfl⟩ := List.mem_map.1 hentry
    rw [hrows.1] at hc
    exact ⟨c, hc, rfl⟩
  · cases e with
    | duckdb e =>
        obtain ⟨catalog, unshreddable⟩ := e
        cases catalog with
        | false => exact does_throw hgoes.standing _
        | true =>
            exact does_setKnown hgoes.standing rfl fun entry hentry =>
              absurd hentry List.not_mem_nil
    | reservedCollision names => exact does_throw hgoes.standing _
    | createFailed e => exact does_throw hgoes.standing _
    | partitionFailed e => exact does_throw hgoes.standing _

/-- The cache is loaded along any relation that a load keeps. -/
theorem along_ensureSchemaLoaded {I : DuckLakeSink lower → Prop}
    {G : DuckLakeSink lower → DuckLakeSink lower → Prop} (hG : Rely I G)
    (hload : ∀ s, I s → Along G loadTableSchema (fun _ _ => True) s) (hs : I s) :
    Along G ensureSchemaLoaded (fun _ _ => True) s := by
  have hreload : ∀ t, I t → Along G reloadIfEmpty (fun _ _ => True) t := by
    refine fun t ht => along_get_bind (along_ite (fun _ => ?_) fun _ => hG.pure ht trivial)
    exact hG.bind (hload t ht) fun _ u hu _ _ => along_get_bind (hG.pure hu trivial)
  refine along_get_bind (along_ite (fun _ => hreload s hs) fun _ => ?_)
  exact hG.bind (hload s hs) fun _ t ht _ _ => hreload t ht

theorem does_ensureSchemaLoaded (hs : Standing schedule s) :
    Does schedule spared s ensureSchemaLoaded (fun _ _ => True) :=
  along_ensureSchemaLoaded rely_goes (fun _ => does_loadTableSchema) hs

/-- What `except duckdb.Error` makes of a statement. -/
theorem along_succeeded {I P : DuckLakeSink lower → Prop}
    {G : DuckLakeSink lower → DuckLakeSink lower → Prop} (hG : Rely I G) {x : SinkM lower PUnit}
    (hx : Along G x (fun _ t => P t) s) :
    Along G (succeeded x) (fun ok t => ok = true → P t) s := by
  refine hG.tryCatch (hG.bind hx fun _ t ht _ h => hG.pure ht fun _ => h) fun e t ht => ?_
  cases e with
  | duckdb e => exact hG.pure ht (by simp)
  | reservedCollision names => exact hG.throw ht _
  | createFailed e => exact hG.throw ht _
  | partitionFailed e => exact hG.throw ht _

theorem does_succeeded {x : SinkM lower PUnit} {P : DuckLakeSink lower → Prop}
    (hx : Does schedule spared s x fun _ t => P t) :
    Does schedule spared s (succeeded x) (fun ok t => ok = true → P t) := along_succeeded rely_goes hx

/-- A cached type speaks of a live column. -/
theorem named_of_columnType (hs : Standing schedule s) {name : String}
    (h : columnType lower s.knownColumns name ≠ none) : Named lower s.live name := by
  cases hfind : s.knownColumns.find? fun entry => lower entry.1 = lower name with
  | none => simp [columnType, hfind] at h
  | some entry =>
      obtain ⟨c, hc, hsame⟩ := hs.known entry (List.mem_of_find?_eq_some hfind)
      have hlower : lower entry.1 = lower name := by simpa using List.find?_some hfind
      exact ⟨c, hc, Eq.trans hsame hlower⟩

theorem mem_setColumnType {name type : String} {known : List (String × String)}
    {entry : String × String} (h : entry ∈ setColumnType lower name type known) :
    entry.1 = name ∨ ∃ old ∈ known, old.1 = entry.1 := by
  induction known with
  | nil => exact Or.inl (by rw [List.mem_singleton.1 h])
  | cons old rest ih =>
      unfold setColumnType at h
      split at h
      · rcases List.mem_cons.1 h with rfl | h
        · exact Or.inr ⟨old, List.mem_cons_self, rfl⟩
        · exact Or.inr ⟨entry, List.mem_cons_of_mem _ h, rfl⟩
      · rcases List.mem_cons.1 h with rfl | h
        · exact Or.inr ⟨entry, List.mem_cons_self, rfl⟩
        · rcases ih h with h | ⟨other, hother, h⟩
          · exact Or.inl h
          · exact Or.inr ⟨other, List.mem_cons_of_mem _ hother, h⟩

theorem known_setColumnType (hs : Standing schedule s) {name : String}
    (hname : Named lower s.live name) (type : String) :
    ∀ entry ∈ setColumnType lower name type s.knownColumns, Named lower s.live entry.1 := by
  intro entry hentry
  rcases mem_setColumnType hentry with heq | ⟨old, hold, heq⟩
  · exact heq ▸ hname
  · exact heq ▸ hs.known old hold

theorem does_verifyAdded (hs : Standing schedule s) {name : String}
    (hname : Named lower s.live name) (type : String) (requireVerified reread : Bool) :
    Does schedule spared s (verifyAdded name type requireVerified reread) (fun _ _ => True) := by
  refine does_get_bind (does_ite (fun _ => ?_) fun _ => does_pure hs trivial)
  refine does_ite (fun _ => does_pure hs trivial) fun _ => ?_
  exact does_bind (does_setKnown hs rfl (known_setColumnType hs hname type)) fun _ t hgoes _ =>
    does_pure hgoes.standing trivial

/-- A column that `_add_column` reports is live. -/
theorem does_addColumn (hs : Standing schedule s) {name : String}
    (hspared : ∀ other, spared other → ¬ Same lower name other) (type : String)
    (requireVerified : Bool) :
    Does schedule spared s (addColumn name type requireVerified)
      (fun ok t => ok = true → Named lower t.live name) := by
  have hrun : Does schedule spared s (runDdl (.addColumn name) (.addColumn ⟨name, type⟩))
      (fun _ t => Named lower t.live name) :=
    (does_runDdl hs _ (spares_addColumn hspared)).mono fun _ _ _ h => h ⟨name, type⟩ rfl
  refine does_bind (does_succeeded hrun) fun added t hgoes hadded => ?_
  refine does_ite (fun _ => does_pure hgoes.standing (by simp)) fun hok => ?_
  have hlive := hadded (by simpa using hok)
  refine does_bind (does_succeeded (does_loadTableSchema hgoes.standing)) fun reread u hgoes' _ => ?_
  have hlive' : Named lower u.live name := hgoes'.grows hlive
  exact (does_verifyAdded hgoes'.standing hlive' type requireVerified reread).mono
    fun _ v hgoes'' _ _ => hgoes''.grows hlive'

theorem does_widenColumn (hs : Standing schedule s) {name : String}
    (hname : Named lower s.live name) (type : String) :
    Does schedule spared s (widenColumn name type) (fun _ _ => True) := by
  have hspares : (Ddl.setDataType name type).Spares lower spared := spares_setDataType spared name type
  have hrun := does_runDdl hs (.setDataType name) hspares
  refine does_bind (does_succeeded (hrun.mono fun _ _ _ _ => trivial)) fun widened t hgoes _ => ?_
  refine does_ite (fun _ => ?_) fun _ => does_pure hgoes.standing trivial
  exact does_setKnown hgoes.standing rfl
    (known_setColumnType hgoes.standing (hgoes.grows hname) type)

theorem does_evolveField (hs : Standing schedule s) {field : Field}
    (hspared : ∀ name, spared name → ¬ Same lower field.name name) :
    Does schedule spared s (evolveField field) (fun _ _ => True) := by
  refine does_ite (fun _ => does_pure hs trivial) fun _ => ?_
  refine does_ite (fun _ => does_pure hs trivial) fun hsafe => ?_
  refine does_get_bind (does_ite (fun _ => ?_) fun hknown => ?_)
  · exact does_bind (does_addColumn hs hspared _ _) fun _ t hgoes _ => does_pure hgoes.standing trivial
  · refine does_ite (fun _ => ?_) fun _ => does_pure hs trivial
    exact does_widenColumn hs (named_of_columnType hs hknown) _

theorem does_evolve (hs : Standing schedule s) (fields : List Field) :
    Does schedule noName s (evolve fields) (fun _ _ => True) := by
  have hfields : ∀ (fields : List Field) (s : DuckLakeSink lower), Standing schedule s →
      Does schedule noName s (evolveFields fields) (fun _ _ => True) := by
    intro fields
    induction fields with
    | nil => exact fun s hs => does_pure hs trivial
    | cons field rest ih =>
        exact fun s hs => does_bind (does_evolveField hs fun _ hname => hname.elim) fun _ t hgoes _ =>
          ih t hgoes.standing
  refine does_bind (does_ensureSchemaLoaded hs) fun loaded t hgoes _ => ?_
  exact does_ite (fun _ => hfields fields t hgoes.standing) fun _ => does_pure hgoes.standing trivial

/-- The lowered names that are reported are names of live columns. -/
theorem does_liveColumnNames (hs : Standing schedule s) (type : String) :
    Does schedule spared s (liveColumnNames type)
      (fun names t => ∀ name, lower name ∈ names → Named lower t.live name) := by
  refine does_bind (does_ensureSchemaLoaded hs) fun loaded t hgoes _ => ?_
  refine does_get_bind (does_ite (fun _ => ?_) fun _ => ?_)
  · refine does_pure hgoes.standing fun name hname => ?_
    obtain ⟨entry, hentry, hlower⟩ := List.mem_map.1 hname
    obtain ⟨c, hc, hsame⟩ := hgoes.standing.known entry (List.mem_filter.1 hentry).1
    exact ⟨c, hc, Eq.trans hsame hlower⟩
  · exact does_pure hgoes.standing fun name hname => absurd hname List.not_mem_nil

/-- A companion that is ready is live. -/
theorem does_ensureVariantColumn (hs : Standing schedule s) (present : List String) {source : String}
    (hspared : ∀ name, spared name → ¬ Same lower (variantColumnName source) name) :
    Does schedule spared s (ensureVariantColumn present source)
      (fun ready t => ready = true → Named lower t.live (variantColumnName source)) := by
  refine does_get_bind (does_ite (fun _ => does_pure hs (by simp)) fun _ => ?_)
  refine does_ite (fun _ => does_pure hs (by simp)) fun _ => ?_
  refine does_ite (fun hknown => does_pure hs fun _ => ?_) fun _ => ?_
  · exact named_of_columnType hs (by rw [hknown]; simp)
  · refine does_ite (fun _ => does_pure hs (by simp)) fun _ => ?_
    exact does_addColumn hs hspared _ _

/-- The companions of the sources are live. -/
def CompanionsLive (sources : List String) (s : DuckLakeSink lower) : Prop :=
  ∀ source ∈ sources, Named lower s.live (variantColumnName source)

theorem does_ensureVariantSources (present : List String) (sources : List String)
    (hspared : ∀ source ∈ sources, ∀ name, spared name →
      ¬ Same lower (variantColumnName source) name) :
    ∀ {s : DuckLakeSink lower}, Standing schedule s →
      Does schedule spared s (ensureVariantSources present sources) CompanionsLive := by
  induction sources with
  | nil => exact fun hs => does_pure hs fun source hsource => absurd hsource List.not_mem_nil
  | cons source rest ih =>
      intro s hs
      obtain ⟨hsource, hrest⟩ := List.forall_mem_cons.1 hspared
      refine does_bind (does_ensureVariantColumn hs present hsource) fun ready t hgoes hready => ?_
      refine does_bind (ih hrest hgoes.standing) fun others u hgoes' hothers => ?_
      refine does_pure hgoes'.standing fun name hname => ?_
      split at hname
      · next hok =>
          rcases List.mem_cons.1 hname with rfl | hname
          · exact hgoes'.grows (hready hok)
          · exact hothers name hname
      · exact hothers name hname

theorem does_ensureVariantColumns (hs : Standing schedule s) {sources : List String}
    (hspared : ∀ source ∈ sources, ∀ name, spared name →
      ¬ Same lower (variantColumnName source) name) (present : List String) :
    Does schedule spared s (ensureVariantColumns sources present) CompanionsLive := by
  have hnone : ∀ t : DuckLakeSink lower, CompanionsLive [] t :=
    fun t source hsource => absurd hsource List.not_mem_nil
  refine does_ite (fun _ => does_pure hs (hnone s)) fun _ => ?_
  refine does_bind (does_ensureSchemaLoaded hs) fun loaded t hgoes _ => ?_
  exact does_ite (fun _ => does_ensureVariantSources present sources hspared hgoes.standing)
    fun _ => does_pure hgoes.standing (hnone t)

end Millpond.Ducklake
