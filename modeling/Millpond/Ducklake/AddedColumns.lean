import Millpond.Ducklake.Evolution
import Millpond.Ducklake.Write

set_option autoImplicit false

/-! # Which columns are added

`evolve` issues an `ADD COLUMN` for each safe name that it does not know, and the fates of two
statements decide about it. After `evolve` a name is a column of the table just when it was before,
another pod created it, or such a statement took effect; and a companion is ready just when it was
known, or was added and read again. -/

namespace Millpond.Ducklake

open Prog ReadCommitted

variable {lower : String → String} {schedule : ℕ → List Column} {s t u : DuckLakeSink lower}

/-! ## Names gained -/

/-- The sink went on, and `name` is live just when it was, another pod created it in between, or
    `own`. -/
structure Gains (schedule : ℕ → List Column) (name : String) (own : Prop) (s t : DuckLakeSink lower) :
    Prop where
  goes : Goes schedule noName s t
  iff : Named lower t.live name ↔ Named lower s.live name ∨
    OthersCreated lower schedule s.session.clock t.session.clock name ∨ own

variable {name : String} {own own' : Prop}

theorem Gains.congr (h : Gains schedule name own s t) (hown : own ↔ own') :
    Gains schedule name own' s t := by
  refine ⟨h.goes, h.iff.trans ?_⟩
  rw [hown]

/-- A stretch that spares the name. -/
theorem Goes.gains (h : Goes schedule (Eq name) s t) : Gains schedule name False s t := by
  refine ⟨h.weaken, ?_⟩
  rw [or_false]
  exact ⟨h.tracks.spared name rfl, fun h' => h'.elim (h.tracks.grows name) (h.tracks.others name)⟩

/-- A name that is live stays so, whoever might create it. -/
theorem Gains.of_named (h : Goes schedule noName s t) (hname : Named lower s.live name) :
    Gains schedule name own s t :=
  ⟨h, fun _ => Or.inl hname, fun _ => h.grows hname⟩

theorem Gains.trans (h : Gains schedule name own s t) (h' : Gains schedule name own' t u) :
    Gains schedule name (own ∨ own') s u := by
  have hgoes := h.goes.trans h'.goes
  refine ⟨hgoes, fun hu => ?_, ?_⟩
  · rcases h'.iff.1 hu with ht | hothers | hown
    · rcases h.iff.1 ht with hs | hothers | hown
      · exact Or.inl hs
      · exact Or.inr (Or.inl (hothers.mono le_rfl h'.goes.tracks.clock))
      · exact Or.inr (Or.inr (Or.inl hown))
    · exact Or.inr (Or.inl (hothers.mono h.goes.tracks.clock le_rfl))
    · exact Or.inr (Or.inr (Or.inr hown))
  · rintro (hs | hothers | hown | hown)
    · exact hgoes.grows hs
    · exact hgoes.tracks.others name hothers
    · exact h'.goes.grows (h.iff.2 (Or.inr (Or.inr hown)))
    · exact h'.iff.2 (Or.inr (Or.inr hown))

theorem Gains.spare (h : Gains schedule name own s t) (h' : Goes schedule (Eq name) t u) :
    Gains schedule name own s u := (h.trans h'.gains).congr (by rw [or_false])

/-! ## One column -/

/-- The DDL that is issued in this state takes effect: the statement runs, and its COMMIT goes
    through, whether that is reported or not. -/
def Lands (s : DuckLakeSink lower) : Prop :=
  s.session.fates s.session.clock = .runs ∧ ∀ e, s.session.fates (s.session.clock + 1) ≠ .fails e

theorem isSome_of_named {live : Columns} (h : Named lower live name) : live.isSome = true := by
  cases live with
  | none => exact absurd h (by simp [Named, NamedIn])
  | some live => rfl

/-- The table is there, with some column. -/
def There (s : DuckLakeSink lower) : Prop := ∃ column, Named lower s.live column

theorem There.isSome (h : There s) : s.live.isSome = true := by
  obtain ⟨_, h⟩ := h
  exact isSome_of_named h

theorem There.goes (h : There s) (hgoes : Goes schedule noName s t) : There t := by
  obtain ⟨column, h⟩ := h
  exact ⟨column, hgoes.grows h⟩

theorem isSome_next (hs : Standing schedule s) (hthere : There s) :
    s.session.next.columns.isSome = true := by
  rw [next_eq hs.pods]
  exact createColumns_isSome _ hthere.isSome

/-- An `ADD COLUMN` creates its column just when it takes effect, reported or not. -/
theorem runDdl_gains (hs : Standing schedule s) (hthere : There s) (label : DuckStatement)
    {c : Column} (hsame : Same lower c.name name) :
    wp (runDdl label (.addColumn c)) (fun _ t => Gains schedule name (Lands s) s t)
      (fun _ t => Gains schedule name (Lands s) s t) s := by
  have happlied : Goes schedule noName s (s.applied label (.addColumn c)) :=
    goes_applied hs label _ (spares_noName _)
  have hnamed : Named lower (s.applied label (.addColumn c)).live name := by
    obtain ⟨d, hd, hdc⟩ := named_applied hs label (c := c) (isSome_next hs hthere)
    exact ⟨d, hd, Eq.trans hdc hsame⟩
  have hlands : Lands s → Gains schedule name (Lands s) s (s.applied label (.addColumn c)) :=
    fun hlands => ⟨happlied, fun _ => Or.inr (Or.inr hlands), fun _ => hnamed⟩
  refine wp_runDdl hs.own (fun e hrefused => ?_) (fun hruns hcommit _ => ?_)
    (fun e _ hruns hcommit _ => ?_) fun e _ hcommit => ?_
  · refine (goes_refused hs label).gains.congr ⟨False.elim, fun hlands => ?_⟩
    rcases hrefused with hfate | ⟨hnone, -⟩
    · exact hfate hlands.1
    · rw [Option.isNone_iff_eq_none] at hnone
      have hsome := isSome_next hs hthere
      rw [hnone] at hsome
      cases hsome
  · exact hlands ⟨hruns, fun e h => by rw [hcommit] at h; cases h⟩
  · exact hlands ⟨hruns, fun e' h => by rw [hcommit] at h; cases h⟩
  · exact (goes_uncommitted hs label _).gains.congr ⟨False.elim, fun hlands => hlands.2 e hcommit⟩

/-- The rule for `except duckdb.Error`. -/
theorem wp_succeeded {x : SinkM lower PUnit} {Q : Bool → DuckLakeSink lower → Prop}
    {E : WriteError → DuckLakeSink lower → Prop}
    (h : wp x (fun _ => Q true) (fun e t => Q false t ∧ E e t) s) : wp (succeeded x) Q E s := by
  unfold succeeded
  rw [wp_tryCatch, wp_bind]
  refine wp_mono h (fun _ _ h => h) (fun e t ht => ?_)
  cases e with
  | duckdb e => exact ht.1
  | reservedCollision names => exact ht.2
  | createFailed e => exact ht.2
  | partitionFailed e => exact ht.2

/-- What `_add_column` creates is up to its statement alone. -/
theorem addColumn_gains (hs : Standing schedule s) (hthere : There s) {column : String}
    (hsame : Same lower column name) (type : String) (requireVerified : Bool) :
    wp (addColumn column type requireVerified) (fun _ t => Gains schedule name (Lands s) s t)
      (fun _ t => Gains schedule name (Lands s) s t) s := by
  have hrun : Does schedule noName s (runDdl (.addColumn column) (.addColumn ⟨column, type⟩))
      (fun _ t => Named lower t.live column) :=
    (does_runDdl hs _ (spares_noName _)).mono fun _ _ _ h => h ⟨column, type⟩ rfl
  have hgains : wp (succeeded (runDdl (.addColumn column) (.addColumn ⟨column, type⟩)))
      (fun _ t => Gains schedule name (Lands s) s t) (fun _ t => Gains schedule name (Lands s) s t) s :=
    wp_succeeded (wp_mono (runDdl_gains hs hthere _ hsame) (fun _ _ h => h) fun _ _ h => ⟨h, h⟩)
  unfold addColumn
  rw [wp_bind]
  refine wp_mono (wp_and (does_succeeded hrun) hgains) (fun added t h => ?_) fun _ _ h => h.2
  obtain ⟨⟨hgoes, hadded⟩, hgains⟩ := h
  have hrest : Does schedule (Eq name) t
      (if !added then pure false else do
        let reread ← succeeded loadTableSchema
        verifyAdded column type requireVerified reread) (fun _ _ => True) := by
    refine does_ite (fun _ => does_pure hgoes.standing trivial) fun hok => ?_
    have hlive := hadded (by simpa using hok)
    refine does_bind (does_succeeded (does_loadTableSchema hgoes.standing)) fun reread u hu _ => ?_
    exact does_verifyAdded hu.standing (hu.grows hlive) type requireVerified reread
  exact wp_mono hrest (fun _ _ h => hgains.spare h.1) fun _ _ h => hgains.spare h

/-! ## `evolve` -/

/-- The field's name is one that `evolve` adds, and DDL issued in this state takes effect. -/
def Adds (field : Field) (s : DuckLakeSink lower) : Prop :=
  field.name ≠ "_inserted_at" ∧ Hoglake.matchesSafeIdentifier field.name = true ∧ Lands s

/-- `evolve`, called in `s`, comes to the field in `s'`. -/
def EvolvesAt (fields : List Field) (s : DuckLakeSink lower) (field : Field) (s' : DuckLakeSink lower) :
    Prop :=
  ∃ s₁, ensureSchemaLoaded s = .ok true s₁ ∧ Comes evolveField fields s₁ field s'

/-- A turn of the loop of `evolve`. -/
theorem evolveField_gains (hs : Standing schedule s) (hthere : There s) (field : Field)
    (name : String) :
    wp (evolveField field)
      (fun _ t => Gains schedule name (Same lower field.name name ∧ Adds field s) s t)
      (fun _ _ => True) s := by
  by_cases hsame : Same lower field.name name
  · have hidle : ¬ Adds field s → Gains schedule name (Same lower field.name name ∧ Adds field s) s s :=
      fun hnot => (Goes.refl hs).gains.congr ⟨False.elim, fun h => hnot h.2⟩
    unfold evolveField
    rw [wp_ite]
    refine ⟨fun hreserved => hidle fun hadds => hadds.1 hreserved, fun hname => ?_⟩
    rw [wp_ite]
    refine ⟨fun hunsafe => hidle fun hadds => ?_, fun hsafe => ?_⟩
    · rw [hadds.2.1] at hunsafe
      cases hunsafe
    have hadds : Lands s ↔ Same lower field.name name ∧ Adds field s :=
      ⟨fun h => ⟨hsame, hname, by simpa using hsafe, h⟩, fun h => h.2.2.2⟩
    rw [wp_bind, wp_get]
    beta_reduce
    rw [wp_ite]
    constructor
    · intro _
      rw [wp_bind]
      exact wp_mono (addColumn_gains hs hthere hsame _ _) (fun _ t h => h.congr hadds) fun _ _ _ => trivial
    · -- the cache knows the name, so it is live
      intro hknown
      have hnamed : Named lower s.live name := by
        obtain ⟨c, hc, hcname⟩ := named_of_columnType hs hknown
        exact ⟨c, hc, Eq.trans hcname hsame⟩
      have hdoes : Does schedule noName s
          (if columnType lower s.knownColumns field.name ≠ some (arrowTypeToDuckdb field.type) then
            widenColumn field.name (arrowTypeToDuckdb field.type)
          else pure ⟨⟩) (fun _ _ => True) :=
        does_ite (fun _ => does_widenColumn hs (named_of_columnType hs hknown) _)
          fun _ => does_pure hs trivial
      exact wp_mono hdoes (fun _ t h => .of_named h.1 hnamed) fun _ _ _ => trivial
  · have hdoes : Does schedule (Eq name) s (evolveField field) (fun _ _ => True) :=
      does_evolveField hs fun other hother => hother ▸ hsame
    refine wp_mono hdoes (fun _ t h => ?_) (fun _ _ _ => trivial)
    exact h.1.gains.congr ⟨False.elim, fun h => hsame h.1⟩

theorem not_comes_nil {ε σ α β : Type} {turn : α → EStateM ε σ β} {s s' : σ} {x : α} :
    ¬ Comes turn [] s x s' := fun h => absurd h.mem List.not_mem_nil

/-- The loop: a name is created just when one of its turns creates it. -/
theorem evolveFields_gains (fields : List Field) (name : String) :
    ∀ {s : DuckLakeSink lower}, Standing schedule s → There s →
      wp (evolveFields fields)
        (fun _ t => Gains schedule name (∃ field s', Comes evolveField fields s field s' ∧
          Same lower field.name name ∧ Adds field s') s t)
        (fun _ _ => True) s := by
  induction fields with
  | nil =>
      intro s hs _
      refine (Goes.refl hs).gains.congr ⟨False.elim, ?_⟩
      rintro ⟨field, s', hcomes, -⟩
      exact not_comes_nil hcomes
  | cons field rest ih =>
      intro s hs hthere
      unfold evolveFields
      rw [wp_bind]
      refine wp_mono (wp_and (wp_run _ s) (evolveField_gains hs hthere field name))
        (fun _ t h => ?_) (fun _ _ _ => trivial)
      obtain ⟨htook, hgains⟩ := h
      -- the first turn creates the name, or one of the turns after it does
      refine wp_mono (ih hgains.goes.standing (hthere.goes hgains.goes)) (fun _ u h => (hgains.trans h).congr ?_)
        fun _ _ _ => trivial
      simp only [comes_cons htook]
      constructor
      · rintro (h | ⟨other, s', hcomes, h⟩)
        · exact ⟨field, s, Or.inl ⟨rfl, rfl⟩, h⟩
        · exact ⟨other, s', Or.inr hcomes, h⟩
      · rintro ⟨other, s', ⟨rfl, rfl⟩ | hcomes, h⟩
        · exact Or.inl h
        · exact Or.inr ⟨other, s', hcomes, h⟩

/-- A schema that is loaded has a column. -/
theorem wp_ensureSchemaLoaded (s : DuckLakeSink lower) :
    wp ensureSchemaLoaded (fun loaded t => loaded = true → t.knownColumns ≠ []) (fun _ _ => True) s := by
  have hreload : ∀ t : DuckLakeSink lower, wp reloadIfEmpty
      (fun loaded t => loaded = true → t.knownColumns ≠ []) (fun _ _ => True) t := by
    intro t
    unfold reloadIfEmpty
    rw [wp_bind, wp_get]
    beta_reduce
    rw [wp_ite]
    constructor
    · intro _
      rw [wp_bind]
      refine wp_mono (wp_true _ t) (fun _ u _ => ?_) (fun _ _ _ => trivial)
      rw [wp_bind, wp_get]
      intro h hnil
      rw [hnil] at h
      cases h
    · intro h _ hnil
      exact h (by rw [hnil]; rfl)
  unfold ensureSchemaLoaded
  rw [wp_bind, wp_get]
  beta_reduce
  rw [wp_ite]
  refine ⟨fun _ => hreload s, fun _ => ?_⟩
  rw [wp_bind]
  exact wp_mono (wp_true _ s) (fun _ u _ => hreload u) fun _ _ _ => trivial

theorem evolvesAt_iff {fields : List Field} {field : Field} {s' : DuckLakeSink lower} {loaded : Bool}
    (h : ensureSchemaLoaded s = .ok loaded t) :
    EvolvesAt fields s field s' ↔ loaded = true ∧ Comes evolveField fields t field s' := by
  constructor
  · rintro ⟨s₁, hok, hcomes⟩
    obtain ⟨rfl, rfl⟩ := EStateM.Result.ok.inj (h.symm.trans hok)
    exact ⟨rfl, hcomes⟩
  · rintro ⟨rfl, hcomes⟩
    exact ⟨t, h, hcomes⟩

/-- **`evolve`.** However many statements fail and whatever other pods create, a name is live after
    it just when it was live before, another pod created it, or the loop came to a field of that name
    whose `ADD COLUMN` took effect. -/
theorem evolve_gains (hs : Standing schedule s) (fields : List Field) (name : String) :
    wp (evolve fields)
      (fun _ t => Gains schedule name
        (∃ field s', EvolvesAt fields s field s' ∧ Same lower field.name name ∧ Adds field s') s t)
      (fun _ _ => True) s := by
  have hload : Does schedule (Eq name) s ensureSchemaLoaded (fun _ _ => True) :=
    does_ensureSchemaLoaded hs
  unfold evolve
  rw [wp_bind]
  refine wp_mono (wp_and (wp_run _ s) (wp_and (wp_ensureSchemaLoaded s) hload)) (fun loaded t h => ?_)
    fun _ _ _ => trivial
  obtain ⟨hrun, hknown, hgoes, -⟩ := h
  simp only [evolvesAt_iff hrun]
  rw [wp_ite]
  constructor
  · intro hloaded
    obtain ⟨entry, hentry⟩ := List.exists_mem_of_ne_nil _ (hknown hloaded)
    have hthere : There t := ⟨entry.1, hgoes.standing.known entry hentry⟩
    refine wp_mono (evolveFields_gains fields name hgoes.standing hthere) (fun _ u h => ?_)
      fun _ _ _ => trivial
    refine (hgoes.gains.trans h).congr ?_
    simp only [false_or, hloaded, true_and]
  · intro hloaded
    refine hgoes.gains.congr ⟨False.elim, ?_⟩
    rintro ⟨field, s', ⟨hloaded', -⟩, -⟩
    exact hloaded hloaded'

theorem isLoop_evolveFields :
    IsLoop (evolveField : Field → SinkM lower PUnit) (fun _ _ rest => rest) ⟨⟩ evolveFields := by
  refine ⟨rfl, fun field rest => ?_⟩
  simp only [bind_pure]
  rfl

/-- So no safe name of a batch is missing, unless `evolve` read no schema or the `ADD COLUMN` failed
    that it issued for the field. -/
theorem evolve_named (hs : Standing schedule s) (fields : List Field) :
    wp (evolve fields)
      (fun _ t => ∀ field ∈ fields, field.name ≠ "_inserted_at" →
        Hoglake.matchesSafeIdentifier field.name = true →
          Named lower t.live field.name ∨ (∃ s₁, ensureSchemaLoaded s = .ok false s₁) ∨
            ∃ s', EvolvesAt fields s field s' ∧ ¬ Lands s')
      (fun _ _ => True) s := by
  refine wp_mono (wp_run _ s) (fun _ t hevolve => ?_) fun _ _ _ => trivial
  intro field hfield hname hsafe
  have hgains := (wp_of_ok hevolve).1 (evolve_gains hs fields field.name)
  cases hload : ensureSchemaLoaded s with
  | error e s₁ =>
      unfold evolve at hevolve
      rw [bind_apply_error hload] at hevolve
      cases hevolve
  | ok loaded s₁ =>
      cases loaded with
      | false => exact Or.inr (Or.inl ⟨s₁, rfl⟩)
      | true =>
          unfold evolve at hevolve
          rw [bind_apply_ok hload, if_pos rfl] at hevolve
          obtain ⟨s', hcomes⟩ := isLoop_evolveFields.comes hevolve hfield
          by_cases hlands : Lands s'
          · exact Or.inl (hgains.iff.2 (Or.inr (Or.inr
              ⟨field, s', ⟨s₁, hload, hcomes⟩, rfl, hname, hsafe, hlands⟩)))
          · exact Or.inr (Or.inr ⟨s', ⟨s₁, hload, hcomes⟩, hlands⟩)

/-! ## Companions -/

/-- What the cache makes of the columns of a table. -/
def cached (live : Columns) : List (String × String) :=
  (live.getD []).map fun c => (c.name, normalizeDuckdbType c.type)

/-- `_add_column` verifies the column: it is added, and its type is found in the schema that is read
    again. -/
def Verified (c : Column) (s : DuckLakeSink lower) : Prop :=
  s.session.fates s.session.clock = .runs ∧ s.session.fates (s.session.clock + 1) = .runs ∧
    s.session.next.columns.isSome = true ∧ s.session.fates (s.session.clock + 2) = .runs ∧
    columnType lower (cached (s.applied (.addColumn c.name) (.addColumn c)).session.next.columns)
      c.name = some c.type

/-- The rule for a read of the schema. -/
theorem wp_loadTableSchema {Q : PUnit → DuckLakeSink lower → Prop}
    {E : WriteError → DuckLakeSink lower → Prop} (hown : s.session.own = [])
    (hrows : s.session.fates s.session.clock = .runs → ∀ t : DuckLakeSink lower,
      t.knownColumns = cached s.session.next.columns → Q ⟨⟩ t)
    (hnone : s.session.fates s.session.clock ≠ .runs → ∀ t : DuckLakeSink lower,
      t.knownColumns = [] → Q ⟨⟩ t)
    (hfail : s.session.fates s.session.clock ≠ .runs → ∀ e t, E e t) : wp loadTableSchema Q E s := by
  have hview : overlay s.session.own s.session.next = s.session.next := by
    rw [hown]
    rfl
  unfold loadTableSchema readLake execute query
  rw [wp_tryCatch, wp_bind, wp_zoom]
  refine wp_statement_fated (fun e hfate => ?_) (fun e hrun => by cases hrun) fun rows writes hfate hrun => ?_
  · obtain ⟨catalog, unshreddable⟩ := e
    cases catalog with
    | false => exact hfail hfate _ _
    | true => exact hnone hfate _ rfl
  · obtain ⟨rfl, -⟩ := Prod.mk.inj (Except.ok.inj hrun)
    rw [hview]
    exact hrows hfate _ rfl

/-- A column that must be verified is reported just when it is. -/
theorem addColumn_verifies (hs : Standing schedule s) (c : Column) :
    wp (addColumn c.name c.type true) (fun ok _ => ok = true ↔ Verified c s)
      (fun _ _ => ¬ Verified c s) s := by
  have hno : ¬ Verified c s → (false = true ↔ Verified c s) := fun hnot => by simp [hnot]
  unfold addColumn
  rw [wp_bind]
  refine wp_succeeded (wp_runDdl hs.own (fun e hrefused => ?_) (fun hruns hcommit hthere => ?_)
    (fun e _ _ hcommit _ => ?_) fun e _ hcommit => ?_)
  · have hnot : ¬ Verified c s := by
      rintro ⟨hruns, -, hthere, -⟩
      rcases hrefused with hfate | ⟨hnone, -⟩
      · exact hfate hruns
      · rw [Option.isNone_iff_eq_none] at hnone
        rw [hnone] at hthere
        cases hthere
    exact ⟨hno hnot, hnot⟩
  -- the third statement reads the schema again and looks for the column
  · have hmiss : ∀ h : s.session.fates (s.session.clock + 2) ≠ .runs, ¬ Verified c s :=
      fun h hverifies => h hverifies.2.2.2.1
    show wp (do
      let reread ← succeeded loadTableSchema
      verifyAdded c.name c.type true reread) _ _ _
    rw [wp_bind]
    refine wp_succeeded (wp_loadTableSchema rfl (fun hfate t hknown => ?_) (fun hfate t hknown => ?_)
      fun hfate e t => ⟨hno (hmiss hfate), hmiss hfate⟩)
    · show decide (columnType lower t.knownColumns c.name = some c.type) = true ↔ _
      rw [decide_eq_true_iff, hknown]
      exact ⟨fun htype => ⟨hruns, hcommit, hthere rfl, hfate, htype⟩, fun h => h.2.2.2.2⟩
    · show decide (columnType lower t.knownColumns c.name = some c.type) = true ↔ _
      rw [hknown]
      exact hno (hmiss hfate)
  · have hnot : ¬ Verified c s := by
      rintro ⟨-, hruns, -⟩
      rw [hcommit] at hruns
      cases hruns
    exact ⟨hno hnot, hnot⟩
  · have hnot : ¬ Verified c s := by
      rintro ⟨-, hruns, -⟩
      rw [hcommit] at hruns
      cases hruns
    exact ⟨hno hnot, hnot⟩

/-- The batch feeds the source, and its companion is known as a VARIANT, or is added and verified. -/
def Readies (lower : String → String) (present : List String) (source : String)
    (s : DuckLakeSink lower) : Prop :=
  lower source ∈ present.map lower ∧ Hoglake.matchesSafeIdentifier source = true ∧
    (columnType lower s.knownColumns (variantColumnName source) = some "VARIANT" ∨
      columnType lower s.knownColumns (variantColumnName source) = none ∧
        Verified ⟨variantColumnName source, "VARIANT"⟩ s)

/-- A source of `ensure_variant_columns` is ready just when its turn readies it. -/
theorem ensureVariantColumn_readies (hs : Standing schedule s) (present : List String)
    (source : String) :
    wp (ensureVariantColumn present source) (fun ready _ => ready = true ↔ Readies lower present source s)
      (fun _ _ => True) s := by
  have hno : ¬ Readies lower present source s → (false = true ↔ Readies lower present source s) :=
    fun hnot => by simp [hnot]
  unfold ensureVariantColumn
  rw [wp_bind, wp_get]
  beta_reduce
  rw [wp_ite]
  refine ⟨fun habsent => hno fun h => habsent h.1, fun hpresent => ?_⟩
  rw [wp_ite]
  refine ⟨fun hunsafe => hno fun h => ?_, fun hsafe => ?_⟩
  · rw [h.2.1] at hunsafe
    cases hunsafe
  have hpresent : lower source ∈ present.map lower := not_not.1 hpresent
  have hsafe : Hoglake.matchesSafeIdentifier source = true := by simpa using hsafe
  rw [wp_ite]
  refine ⟨fun hknown => iff_of_true rfl ⟨hpresent, hsafe, Or.inl hknown⟩, fun hother => ?_⟩
  rw [wp_ite]
  refine ⟨fun hknown => hno fun h => ?_, fun hnone => ?_⟩
  · rcases h.2.2 with h | ⟨h, -⟩
    · exact hother h
    · exact hknown h
  · have hnone : columnType lower s.knownColumns (variantColumnName source) = none := not_not.1 hnone
    refine wp_mono (addColumn_verifies hs ⟨variantColumnName source, "VARIANT"⟩) (fun ok _ h => ?_)
      fun _ _ _ => trivial
    rw [h]
    exact ⟨fun hverifies => ⟨hpresent, hsafe, Or.inr ⟨hnone, hverifies⟩⟩, fun hready =>
      hready.2.2.elim (fun h => absurd h hother) And.right⟩

/-- `ensure_variant_columns`, called in `s`, comes to the source in a state that readies it. -/
def ReadiedFrom (sources present : List String) (s : DuckLakeSink lower) (source : String) : Prop :=
  ∃ s₁ s', ensureSchemaLoaded s = .ok true s₁ ∧ Comes (ensureVariantColumn present) sources s₁ source s' ∧
    Readies lower present source s'

theorem isLoop_ensureVariantSources (present : List String) :
    IsLoop (ensureVariantColumn present : String → SinkM lower Bool)
      (fun source ready others => if ready then source :: others else others) []
      (ensureVariantSources present) := ⟨rfl, fun _ _ => rfl⟩

/-- The loop of `ensure_variant_columns` answers the sources that it readied. -/
theorem ensureVariantSources_readied (hs : Standing schedule s) (present sources : List String)
    (source : String) :
    wp (ensureVariantSources present sources)
      (fun ready _ => source ∈ ready ↔ ∃ s', Comes (ensureVariantColumn present) sources s source s' ∧
        Readies lower present source s')
      (fun _ _ => True) s := by
  have hstanding : ∀ {x s'}, Comes (ensureVariantColumn present) sources s x s' → Standing schedule s' := by
    refine fun hcomes => hcomes.invariant (fun x s b s₁ hs hturn => ?_) hs
    have hdoes : Does schedule noName s (ensureVariantColumn present x)
        (fun ready t => ready = true → Named lower t.live (variantColumnName x)) :=
      does_ensureVariantColumn hs present fun _ hname => hname.elim
    exact ((wp_of_ok hturn).1 hdoes).1.standing
  have hreadies : ∀ {x s' b s₁}, Comes (ensureVariantColumn present) sources s x s' →
      ensureVariantColumn present x s' = .ok b s₁ → (b = true ↔ Readies lower present x s') :=
    fun hcomes hturn => (wp_of_ok hturn).1 (ensureVariantColumn_readies (hstanding hcomes) present _)
  refine wp_mono (wp_run _ s) (fun ready t hends => ?_) fun _ _ _ => trivial
  have hloop : IsLoop (ensureVariantColumn present : String → SinkM lower Bool) _ _ _ :=
    isLoop_ensureVariantSources present
  rw [hloop.gathers (P := (source ∈ ·)) (Q := fun x b => b = true ∧ x = source) List.not_mem_nil
    (fun x b c => ?_) hends]
  · constructor
    · rintro ⟨x, s', b, s₁, hcomes, hturn, hb, rfl⟩
      exact ⟨s', hcomes, (hreadies hcomes hturn).1 hb⟩
    · rintro ⟨s', hcomes, hready⟩
      obtain ⟨b, s₁, hturn⟩ := hloop.took hends hcomes
      exact ⟨source, s', b, s₁, hcomes, hturn, (hreadies hcomes hturn).2 hready, rfl⟩
  · cases b with
    | false => simp
    | true => simp [eq_comm]

theorem readiedFrom_iff {sources present : List String} {source : String} {loaded : Bool}
    (h : ensureSchemaLoaded s = .ok loaded t) :
    ReadiedFrom sources present s source ↔ loaded = true ∧
      ∃ s', Comes (ensureVariantColumn present) sources t source s' ∧ Readies lower present source s' := by
  constructor
  · rintro ⟨s₁, s', hok, hcomes⟩
    obtain ⟨rfl, rfl⟩ := EStateM.Result.ok.inj (h.symm.trans hok)
    exact ⟨rfl, s', hcomes⟩
  · rintro ⟨rfl, s', hcomes⟩
    exact ⟨t, s', h, hcomes⟩

theorem ReadiedFrom.mem {sources present : List String} {source : String}
    (h : ReadiedFrom sources present s source) : source ∈ sources := by
  obtain ⟨s₁, s', -, hcomes, -⟩ := h
  exact hcomes.mem

theorem ensureVariantColumns_readied (hs : Standing schedule s) (sources present : List String)
    (source : String) :
    wp (ensureVariantColumns sources present)
      (fun ready _ => source ∈ ready ↔ ReadiedFrom sources present s source) (fun _ _ => True) s := by
  unfold ensureVariantColumns
  rw [wp_ite]
  constructor
  · intro hnone
    refine iff_of_false List.not_mem_nil fun h => ?_
    rw [List.isEmpty_iff.1 hnone] at h
    exact absurd h.mem List.not_mem_nil
  · intro _
    have hload : Does schedule noName s ensureSchemaLoaded (fun _ _ => True) := does_ensureSchemaLoaded hs
    rw [wp_bind]
    refine wp_mono (wp_and (wp_run _ s) hload) (fun loaded t h => ?_) fun _ _ _ => trivial
    obtain ⟨hrun, hgoes, -⟩ := h
    simp only [readiedFrom_iff hrun]
    rw [wp_ite]
    constructor
    · intro hloaded
      simp only [hloaded, true_and]
      exact ensureVariantSources_readied hgoes.standing present sources source
    · exact fun hloaded => iff_of_false List.not_mem_nil fun h => hloaded h.1

theorem mem_orNone {sources : List String} {source : String} :
    source ∈ (orNone sources).getD [] ↔ source ∈ sources := by
  unfold orNone
  split
  · next hnone => rw [List.isEmpty_iff.1 hnone, Option.getD_none]
  · rw [Option.getD_some]

/-- The sources that `write` projects are those that are configured and readied. -/
theorem readyVariants_readied (hs : Standing schedule s) (cfg : WriteConfig) (batch : Batch)
    (source : String) :
    wp (readyVariants cfg batch)
      (fun ready _ => source ∈ ready.getD [] ↔ ReadiedFrom cfg.variantColumns batch.names s source)
      (fun _ _ => True) s := by
  unfold readyVariants
  rw [wp_ite]
  constructor
  · intro hnone
    refine iff_of_false List.not_mem_nil fun h => ?_
    have hmem := h.mem
    rw [List.isEmpty_iff.1 hnone] at hmem
    exact List.not_mem_nil hmem
  · intro _
    rw [wp_bind]
    refine wp_mono (ensureVariantColumns_readied hs cfg.variantColumns batch.names source)
      (fun ready _ h => ?_) fun _ _ _ => trivial
    show source ∈ (orNone _).getD [] ↔ _
    rw [mem_orNone, List.mem_filter, decide_eq_true_iff, h]
    exact ⟨And.right, fun hready => ⟨hready.mem, hready⟩⟩

end Millpond.Ducklake
