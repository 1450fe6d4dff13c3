import Millpond.Ducklake.InsertAgreement

set_option autoImplicit false

/-! # VARIANT companions are verified

The schema cache is replaced by every read that returns, and edited after DDL. Only a read puts a
VARIANT into it, and neither other pods nor this one take a companion's type away again; so what is
projected was a VARIANT in the last read. -/

namespace Millpond.Ducklake

open Prog ReadCommitted

variable {lower : String → String} {cfg : WriteConfig} {schedule : ℕ → List Column}
  {s t u : DuckLakeSink lower} {α : Type}

/-- The name of a configured companion, in any case. -/
def Companion (lower : String → String) (cfg : WriteConfig) (name : String) : Prop :=
  lower name ∈ cfg.variantColumns.map fun source => lower (variantColumnName source)

/-- The last read found a VARIANT column of the name. -/
def ReadAsVariant (s : DuckLakeSink lower) (name : String) : Prop :=
  ∃ c ∈ s.lastRead.getD [], Same lower c.name name ∧ normalizeDuckdbType c.type = "VARIANT"

/-- No two of the names differ only in case. -/
def CaseDistinct (lower : String → String) (names : List String) : Prop := (names.map lower).Nodup

/-! ## What statements leave of the table -/

section Growth

variable {c : Column} {columns : List Column} {live : Columns}

theorem mem_addMissing {d : Column} (h : c ∈ columns) : c ∈ addMissing lower columns d := by
  unfold addMissing
  split
  · exact h
  · exact List.mem_append_left _ h

theorem mem_foldl_addMissing (new : List Column) : ∀ {columns : List Column}, c ∈ columns →
    c ∈ new.foldl (addMissing lower) columns := by
  induction new with
  | nil => exact fun h => h
  | cons d rest ih => exact fun h => ih (mem_addMissing h)

/-- Other pods take no column away. -/
theorem mem_createColumns {new : List Column} (h : c ∈ live.getD []) :
    c ∈ (createColumns lower new live).getD [] := by
  unfold createColumns
  split
  · exact h
  · exact mem_foldl_addMissing new h

/-- Nor does DDL, except for a new type. -/
theorem mem_apply {ddl : Ddl}
    (hspared : ∀ name type, ddl = .setDataType name type → ¬Same lower c.name name)
    (h : c ∈ live.getD []) : c ∈ (ddl.apply lower live).getD [] := by
  cases live with
  | none => exact absurd h List.not_mem_nil
  | some columns =>
      cases ddl with
      | createTable new => exact h
      | addColumn d => exact mem_addMissing h
      | setDataType name type =>
          refine List.mem_map.2 ⟨c, h, ?_⟩
          rw [if_neg (hspared name type rfl)]

end Growth

/-! ## Sound sinks -/

/-- Between two statements: VARIANT entries of the cache are those of the last read, its companions
    are still in the table, and the cache tells no more names apart than the read did. -/
structure Sound (cfg : WriteConfig) (schedule : ℕ → List Column) (s : DuckLakeSink lower) : Prop where
  pods : Pods schedule s
  own : s.session.own = []
  cached : ∀ entry ∈ s.knownColumns, entry.2 = "VARIANT" →
    ∃ c ∈ s.lastRead.getD [], c.name = entry.1 ∧ normalizeDuckdbType c.type = "VARIANT"
  kept : ∀ c ∈ s.lastRead.getD [], Companion lower cfg c.name → c ∈ s.live.getD []
  distinct : CaseDistinct lower ((s.lastRead.getD []).map Column.name) →
    CaseDistinct lower (s.knownColumns.map Prod.fst)

/-- The sink is sound, and companions that were read as VARIANT still are. -/
structure Advances (cfg : WriteConfig) (schedule : ℕ → List Column) (s t : DuckLakeSink lower) :
    Prop where
  sound : Sound cfg schedule t
  read : ∀ name, Companion lower cfg name → ReadAsVariant s name → ReadAsVariant t name

theorem Advances.refl (hs : Sound cfg schedule s) : Advances cfg schedule s s := ⟨hs, fun _ _ h => h⟩

theorem Advances.trans (h : Advances cfg schedule s t) (h' : Advances cfg schedule t u) :
    Advances cfg schedule s u :=
  ⟨h'.sound, fun name hname hread => h'.read name hname (h.read name hname hread)⟩

/-- Along any run of `x` from `s` the sink advances. -/
def Verifies (cfg : WriteConfig) (schedule : ℕ → List Column) (s : DuckLakeSink lower)
    (x : SinkM lower α) (Q : α → DuckLakeSink lower → Prop) : Prop :=
  Along (Advances cfg schedule) x Q s

section Rules

variable {β : Type} {x : SinkM lower α} {P Q : α → DuckLakeSink lower → Prop}

theorem rely_advances :
    Rely (fun s : DuckLakeSink lower => Sound cfg schedule s) (Advances cfg schedule) :=
  ⟨fun _ => Advances.refl, fun _ _ _ => Advances.trans, fun _ _ h => h.sound⟩

theorem verifies_pure (hs : Sound cfg schedule s) {a : α} (h : Q a s) :
    Verifies cfg schedule s (pure a) Q := rely_advances.pure hs h

theorem verifies_throw (hs : Sound cfg schedule s) (e : WriteError) :
    Verifies cfg schedule s (throw e : SinkM lower α) Q := rely_advances.throw hs e

theorem verifies_bind {f : α → SinkM lower β} {Q : β → DuckLakeSink lower → Prop}
    (hx : Verifies cfg schedule s x P)
    (hf : ∀ a t, Advances cfg schedule s t → P a t → Verifies cfg schedule t (f a) Q) :
    Verifies cfg schedule s (x >>= f) Q := along_bind rely_advances.trans hx hf

theorem verifies_get_bind {f : DuckLakeSink lower → SinkM lower β}
    {Q : β → DuckLakeSink lower → Prop} (h : Verifies cfg schedule s (f s) Q) :
    Verifies cfg schedule s (get >>= f) Q := along_get_bind h

theorem verifies_tryCatch {handle : WriteError → SinkM lower α} (hx : Verifies cfg schedule s x Q)
    (hhandle : ∀ e t, Advances cfg schedule s t → Verifies cfg schedule t (handle e) Q) :
    Verifies cfg schedule s (tryCatch x handle) Q := along_tryCatch rely_advances.trans hx hhandle

theorem verifies_ite {c : Prop} [Decidable c] {y : SinkM lower α}
    (hx : c → Verifies cfg schedule s x Q) (hy : ¬c → Verifies cfg schedule s y Q) :
    Verifies cfg schedule s (if c then x else y) Q := along_ite hx hy

end Rules

/-! ## Statements -/

theorem advances_session (hs : Sound cfg schedule s) {session : DuckSession lower}
    (hothers : session.others = s.session.others) (hown : session.own = [])
    (hlive : ∀ c, Companion lower cfg c.name → c ∈ s.live.getD [] →
      c ∈ session.committed.columns.getD []) :
    Advances cfg schedule s { s with session := session } := by
  refine ⟨⟨?_, hown, hs.cached, fun c hc hname => hlive c hname (hs.kept c hc hname), hs.distinct⟩,
    fun _ _ h => h⟩
  show session.others = _
  rw [hothers]
  exact hs.pods

theorem mem_next (hs : Sound cfg schedule s) {c : Column} (h : c ∈ s.live.getD []) :
    c ∈ s.session.next.columns.getD [] := by
  rw [next_eq hs.pods]
  exact mem_createColumns h

theorem verifies_readLake (hs : Sound cfg schedule s) (label : DuckStatement)
    (read : Columns → α) :
    Verifies cfg schedule s (readLake label read) (fun a t => a = read t.live) := by
  unfold Verifies Along readLake execute
  rw [wp_zoom]
  have hread : Advances cfg schedule s
      { s with session := s.session.reading label s.session.next } :=
    advances_session hs rfl hs.own fun c _ hc => mem_next hs hc
  refine wp_query (fun _ => hread) ⟨hread, ?_⟩
  rw [hs.own]
  rfl

/-- A statement that commits by itself and spares the companions. -/
theorem verifies_transaction (hs : Sound cfg schedule s) {label : DuckStatement}
    {run : Lake lower → Except WriteError (α × List Ddl)}
    (hspared : ∀ lake a writes, run lake = .ok (a, writes) → ∀ c (live : Lake lower),
      Companion lower cfg c.name → c ∈ live.columns.getD [] →
        c ∈ (overlay writes live).columns.getD []) :
    Verifies cfg schedule s (execute (transaction (statement label run))) (fun _ _ => True) := by
  unfold Verifies Along execute
  rw [wp_zoom]
  refine wp_transaction (wp_statement (fun e => ?_) fun a writes hrun => ?_)
  · exact advances_session hs rfl rfl fun c _ hc => mem_next hs hc
  · let q : DuckSession lower := (s.session.reading label s.session.next).writing writes
    have hown : q.own = writes := by
      show s.session.own ++ writes = writes
      rw [hs.own]
      rfl
    have hnext : ∀ c, c ∈ s.live.getD [] → c ∈ q.next.columns.getD [] := by
      intro c hc
      have heq : q.next = ⟨createColumns lower (schedule q.clock) q.committed.columns⟩ :=
        next_eq hs.pods
      rw [heq]
      exact mem_createColumns (mem_next hs hc)
    have hdone : Advances cfg schedule s { s with session := q.committing q.next } := by
      refine advances_session hs rfl rfl fun c hname hc => ?_
      show c ∈ (overlay q.own q.next).columns.getD []
      rw [hown]
      exact hspared _ _ _ hrun c q.next hname (hnext c hc)
    have hundone : Advances cfg schedule s { s with session := q.uncommitted q.next } :=
      advances_session hs rfl rfl fun c _ hc => hnext c hc
    exact ⟨⟨hdone, trivial⟩, fun _ => hdone, fun _ => hundone⟩

theorem verifies_runDdl (hs : Sound cfg schedule s) (label : DuckStatement) (ddl : Ddl)
    (hspared : ∀ name type, ddl = .setDataType name type → ¬Companion lower cfg name) :
    Verifies cfg schedule s (runDdl label ddl) (fun _ _ => True) := by
  refine verifies_transaction hs fun lake a writes hrun c live hname hc => ?_
  split at hrun
  · cases hrun
  · obtain ⟨-, rfl⟩ := Prod.mk.inj (Except.ok.inj hrun)
    refine mem_apply (fun name type heq hsame => hspared name type heq ?_) hc
    unfold Companion at hname ⊢
    rwa [← show lower c.name = lower name from hsame]

theorem verifies_insertByName (hs : Sound cfg schedule s) (outputs : List String) :
    Verifies cfg schedule s (insertByName outputs) (fun _ _ => True) := by
  refine verifies_transaction hs fun lake a writes hrun c live _ hc => ?_
  split at hrun
  · obtain ⟨-, rfl⟩ := Prod.mk.inj (Except.ok.inj hrun)
    exact hc
  · cases hrun

/-! ## The cache -/

/-- A change of the cache that neither makes up a VARIANT nor tells names apart. -/
theorem verifies_modify (hs : Sound cfg schedule s) {f : DuckLakeSink lower → DuckLakeSink lower}
    (hsession : (f s).session = s.session) (hread : (f s).lastRead = s.lastRead)
    (hcached : ∀ entry ∈ (f s).knownColumns, entry.2 = "VARIANT" → entry ∈ s.knownColumns)
    (hdistinct : CaseDistinct lower (s.knownColumns.map Prod.fst) →
      CaseDistinct lower ((f s).knownColumns.map Prod.fst)) :
    Verifies cfg schedule s (modify f) (fun _ _ => True) := by
  refine ⟨⟨⟨?_, ?_, ?_, ?_, ?_⟩, fun name _ h => ?_⟩, trivial⟩
  · unfold Pods
    rw [hsession]
    exact hs.pods
  · rw [hsession]
    exact hs.own
  · rw [hread]
    exact fun entry hentry hvariant => hs.cached entry (hcached entry hentry hvariant) hvariant
  · unfold DuckLakeSink.live
    rw [hread, hsession]
    exact hs.kept
  · rw [hread]
    exact fun h => hdistinct (hs.distinct h)
  · unfold ReadAsVariant
    rw [hread]
    exact h

theorem verifies_loadTableSchema (hs : Sound cfg schedule s) :
    Verifies cfg schedule s loadTableSchema (fun _ _ => True) := by
  refine verifies_tryCatch (verifies_bind (verifies_readLake hs _ _) fun rows t ht hrows => ?_)
    fun e t ht => ?_
  · subst hrows
    refine ⟨⟨⟨ht.sound.pods, ht.sound.own, ?_, fun c hc _ => hc, ?_⟩, ?_⟩, trivial⟩
    · intro entry hentry hvariant
      obtain ⟨c, hc, rfl⟩ := List.mem_map.1 hentry
      exact ⟨c, hc, rfl, hvariant⟩
    · intro h
      show CaseDistinct lower (List.map Prod.fst (List.map _ _))
      rw [List.map_map]
      exact h
    · -- what was read before is in the table still
      rintro name hname ⟨c, hc, hsame, hvariant⟩
      refine ⟨c, ht.sound.kept c hc ?_, hsame, hvariant⟩
      unfold Companion at hname ⊢
      rwa [show lower c.name = lower name from hsame]
  · cases e with
    | duckdb e =>
        obtain ⟨catalog, unshreddable⟩ := e
        cases catalog with
        | false => exact verifies_throw ht.sound _
        | true =>
            exact verifies_modify ht.sound rfl rfl
              (fun entry hentry => absurd hentry List.not_mem_nil) fun _ => List.nodup_nil
    | reservedCollision names => exact verifies_throw ht.sound _
    | createFailed e => exact verifies_throw ht.sound _
    | partitionFailed e => exact verifies_throw ht.sound _

theorem verifies_ensureSchemaLoaded (hs : Sound cfg schedule s) :
    Verifies cfg schedule s ensureSchemaLoaded (fun _ _ => True) :=
  along_ensureSchemaLoaded rely_advances (fun _ => verifies_loadTableSchema) hs

theorem verifies_succeeded {x : SinkM lower PUnit} (hx : Verifies cfg schedule s x fun _ _ => True) :
    Verifies cfg schedule s (succeeded x) (fun _ _ => True) :=
  (along_succeeded rely_advances hx).mono fun _ _ _ _ => trivial

section SetColumnType

variable {name type : String} {known : List (String × String)}

theorem mem_setColumnType_of_ne {entry : String × String} (h : entry ∈ setColumnType lower name type known)
    (hne : entry.2 ≠ type) : entry ∈ known := by
  induction known with
  | nil => exact absurd (congrArg Prod.snd (List.mem_singleton.1 h)) hne
  | cons old rest ih =>
      unfold setColumnType at h
      split at h
      · rcases List.mem_cons.1 h with rfl | h
        · exact absurd rfl hne
        · exact List.mem_cons_of_mem _ h
      · rcases List.mem_cons.1 h with rfl | h
        · exact List.mem_cons_self
        · exact List.mem_cons_of_mem _ (ih h)

/-- The key is one that is there, or no case variant of it is. -/
theorem setColumnType_keys (lower : String → String) (name type : String) (known : List (String × String)) :
    (setColumnType lower name type known).map Prod.fst = known.map Prod.fst ∨
      (setColumnType lower name type known).map Prod.fst = known.map Prod.fst ++ [name] ∧
        lower name ∉ (known.map Prod.fst).map lower := by
  induction known with
  | nil => exact Or.inr ⟨rfl, List.not_mem_nil⟩
  | cons old rest ih =>
      unfold setColumnType
      split
      · exact Or.inl rfl
      · rename_i hother
        refine ih.imp (fun h => ?_) (fun h => ⟨?_, ?_⟩)
        · rw [List.map_cons, List.map_cons, h]
        · rw [List.map_cons, List.map_cons, h.1]
          rfl
        · rw [List.map_cons, List.map_cons, List.mem_cons]
          exact fun hmem => hmem.elim (fun heq => hother heq.symm) h.2

theorem CaseDistinct.setColumnType (h : CaseDistinct lower (known.map Prod.fst)) (name type : String) :
    CaseDistinct lower ((setColumnType lower name type known).map Prod.fst) := by
  rcases setColumnType_keys lower name type known with heq | ⟨heq, hnew⟩
  · rw [heq]
    exact h
  · rw [heq]
    unfold CaseDistinct
    rw [List.map_append, List.map_singleton, List.nodup_append]
    refine ⟨h, List.nodup_singleton _, fun a ha b hb heq => hnew ?_⟩
    rw [← List.mem_singleton.1 hb, ← heq]
    exact ha

theorem verifies_setColumnType (hs : Sound cfg schedule s) (hne : type ≠ "VARIANT") :
    Verifies cfg schedule s
      (modify fun s => { s with knownColumns := Ducklake.setColumnType lower name type s.knownColumns })
      (fun _ _ => True) :=
  verifies_modify hs rfl rfl
    (fun _ hentry hvariant => mem_setColumnType_of_ne hentry (hvariant.symm ▸ hne.symm))
    fun h => h.setColumnType name type

end SetColumnType

/-- A cached VARIANT was read. -/
theorem readAsVariant_of_columnType (hs : Sound cfg schedule s) {name : String}
    (h : columnType lower s.knownColumns name = some "VARIANT") : ReadAsVariant s name := by
  obtain ⟨entry, hfind, htype⟩ := Option.map_eq_some_iff.1 h
  obtain ⟨c, hc, hname, hvariant⟩ := hs.cached entry (List.mem_of_find?_eq_some hfind) htype
  refine ⟨c, hc, ?_, hvariant⟩
  have hlower : lower entry.1 = lower name := by simpa using List.find?_some hfind
  show lower c.name = lower name
  rw [hname, hlower]

/-! ## The schema manager -/

theorem verifies_verifyAdded (hs : Sound cfg schedule s) {name type : String} {requireVerified : Bool}
    (htype : requireVerified = true ∨ type ≠ "VARIANT") (reread : Bool) :
    Verifies cfg schedule s (verifyAdded name type requireVerified reread)
      (fun ok t => ok = true → requireVerified = true → type = "VARIANT" → ReadAsVariant t name) := by
  refine verifies_get_bind (verifies_ite (fun _ => ?_) fun _ => verifies_pure hs ?_)
  · refine verifies_ite (fun _ => verifies_pure hs fun hok => nomatch hok) fun hplain => ?_
    refine verifies_bind (verifies_setColumnType hs (htype.resolve_left hplain)) fun _ t ht _ => ?_
    exact verifies_pure ht.sound fun _ hverified => absurd hverified hplain
  · intro hok _ hvariant
    rw [decide_eq_true_iff, hvariant] at hok
    exact readAsVariant_of_columnType hs hok

/-- A VARIANT column that `_add_column` reports was read as one. -/
theorem verifies_addColumn (hs : Sound cfg schedule s) (name : String) {type : String}
    {requireVerified : Bool} (htype : requireVerified = true ∨ type ≠ "VARIANT") :
    Verifies cfg schedule s (addColumn name type requireVerified)
      (fun ok t => ok = true → requireVerified = true → type = "VARIANT" → ReadAsVariant t name) := by
  refine verifies_bind (verifies_succeeded (verifies_runDdl hs _ _ fun _ _ h => nomatch h))
    fun added t ht _ => ?_
  refine verifies_ite (fun _ => verifies_pure ht.sound fun hok => nomatch hok) fun _ => ?_
  exact verifies_bind (verifies_succeeded (verifies_loadTableSchema ht.sound)) fun reread u hu _ =>
    verifies_verifyAdded hu.sound htype reread

/-- No Arrow type is a VARIANT to `evolve`. -/
theorem arrowTypeToDuckdb_ne (t : ArrowType) : arrowTypeToDuckdb t ≠ "VARIANT" := by
  have hlookup : ∀ table : List (String × String), (∀ entry ∈ table, entry.2 ≠ "VARIANT") →
      ∀ key, lookupName table key ≠ some "VARIANT" := by
    intro table htable key h
    obtain ⟨entry, hfind, heq⟩ := Option.map_eq_some_iff.1 h
    exact htable entry (List.mem_of_find?_eq_some hfind) heq
  have hextension := hlookup arrowExtensionToDuckdb (by decide)
  have hprinted := hlookup arrowToDuckdb (by decide) t.printed
  unfold arrowTypeToDuckdb
  cases hfound : (t.extensionName.bind (lookupName arrowExtensionToDuckdb)).or
      (lookupName arrowToDuckdb t.printed) with
  | none =>
      show (if t.kind = .fixedSizeBinary then "BLOB" else if t.kind = .nested then "JSON" else "VARCHAR")
        ≠ "VARIANT"
      split_ifs <;> decide
  | some type =>
      rintro rfl
      rcases Option.or_eq_some_iff.1 hfound with hext | ⟨-, hname⟩
      · obtain ⟨key, -, hkey⟩ := Option.bind_eq_some_iff.1 hext
        exact hextension key hkey
      · exact hprinted hname

theorem verifies_evolveField (hs : Sound cfg schedule s) {field : Field}
    (hfield : ¬Companion lower cfg field.name) :
    Verifies cfg schedule s (evolveField field) (fun _ _ => True) := by
  have hne := arrowTypeToDuckdb_ne field.type
  refine verifies_ite (fun _ => verifies_pure hs trivial) fun _ => ?_
  refine verifies_ite (fun _ => verifies_pure hs trivial) fun _ => ?_
  refine verifies_get_bind (verifies_ite (fun _ => ?_) fun _ => ?_)
  · exact verifies_bind (verifies_addColumn hs _ (Or.inr hne)) fun _ t ht _ =>
      verifies_pure ht.sound trivial
  · refine verifies_ite (fun _ => ?_) fun _ => verifies_pure hs trivial
    have hspared : ∀ name type, Ddl.setDataType field.name (arrowTypeToDuckdb field.type)
        = .setDataType name type → ¬Companion lower cfg name := by
      rintro name type ⟨⟩
      exact hfield
    refine verifies_bind (verifies_succeeded (verifies_runDdl hs _ _ hspared)) fun widened t ht _ => ?_
    exact verifies_ite (fun _ => verifies_setColumnType ht.sound hne) fun _ =>
      verifies_pure ht.sound trivial

theorem verifies_evolve (hs : Sound cfg schedule s) {fields : List Field}
    (hfields : ∀ field ∈ fields, ¬Companion lower cfg field.name) :
    Verifies cfg schedule s (evolve fields) (fun _ _ => True) := by
  have hall : ∀ (fields : List Field) (s : DuckLakeSink lower), Sound cfg schedule s →
      (∀ field ∈ fields, ¬Companion lower cfg field.name) →
        Verifies cfg schedule s (evolveFields fields) (fun _ _ => True) := by
    intro fields
    induction fields with
    | nil => exact fun s hs _ => verifies_pure hs trivial
    | cons field rest ih =>
        intro s hs hfields
        obtain ⟨hfield, hrest⟩ := List.forall_mem_cons.1 hfields
        exact verifies_bind (verifies_evolveField hs hfield) fun _ t ht _ => ih t ht.sound hrest
  refine verifies_bind (verifies_ensureSchemaLoaded hs) fun loaded t ht _ => ?_
  exact verifies_ite (fun _ => hall fields t ht.sound hfields) fun _ => verifies_pure ht.sound trivial

theorem verifies_liveColumnNames (hs : Sound cfg schedule s) (type : String) :
    Verifies cfg schedule s (liveColumnNames type) (fun _ _ => True) := by
  refine verifies_bind (verifies_ensureSchemaLoaded hs) fun loaded t ht _ => ?_
  exact verifies_get_bind (verifies_ite (fun _ => verifies_pure ht.sound trivial) fun _ =>
    verifies_pure ht.sound trivial)

/-! ## The ready companions -/

/-- The sources are configured and safe to put into DDL, and their companions were read as VARIANT. -/
def CompanionsRead (cfg : WriteConfig) (sources : List String) (s : DuckLakeSink lower) : Prop :=
  ∀ source ∈ sources, source ∈ cfg.variantColumns ∧ Hoglake.matchesSafeIdentifier source = true ∧
    ReadAsVariant s (variantColumnName source)

theorem companion_of_mem {source : String} (h : source ∈ cfg.variantColumns) :
    Companion lower cfg (variantColumnName source) := List.mem_map_of_mem h

theorem CompanionsRead.advances {sources : List String} (h : CompanionsRead cfg sources s)
    (hadvances : Advances cfg schedule s t) : CompanionsRead cfg sources t := by
  intro source hsource
  obtain ⟨hmem, hsafe, hread⟩ := h source hsource
  exact ⟨hmem, hsafe, hadvances.read _ (companion_of_mem hmem) hread⟩

theorem verifies_ensureVariantColumn (hs : Sound cfg schedule s) (present : List String)
    {source : String} (hsource : source ∈ cfg.variantColumns) :
    Verifies cfg schedule s (ensureVariantColumn present source)
      (fun ready t => ready = true → CompanionsRead cfg [source] t) := by
  refine verifies_get_bind (verifies_ite (fun _ => verifies_pure hs fun h => nomatch h) fun _ => ?_)
  refine verifies_ite (fun _ => verifies_pure hs fun h => nomatch h) fun hsafe => ?_
  have hsafe : Hoglake.matchesSafeIdentifier source = true := by simpa using hsafe
  have hone : ∀ t : DuckLakeSink lower, ReadAsVariant t (variantColumnName source) →
      CompanionsRead cfg [source] t := by
    intro t hread name hname
    rw [List.mem_singleton.1 hname]
    exact ⟨hsource, hsafe, hread⟩
  refine verifies_ite (fun hcached => verifies_pure hs fun _ => ?_) fun _ => ?_
  · exact hone s (readAsVariant_of_columnType hs hcached)
  · refine verifies_ite (fun _ => verifies_pure hs fun h => nomatch h) fun _ => ?_
    exact (verifies_addColumn hs _ (Or.inl rfl)).mono fun ok t _ h hok => hone t (h hok rfl rfl)

/-- By induction on the sources: a later read keeps what an earlier one verified. -/
theorem verifies_ensureVariantSources (present : List String) (sources : List String) :
    ∀ {s : DuckLakeSink lower}, Sound cfg schedule s → (∀ source ∈ sources, source ∈ cfg.variantColumns) →
      Verifies cfg schedule s (ensureVariantSources present sources) (CompanionsRead cfg) := by
  induction sources with
  | nil => exact fun hs _ => verifies_pure hs fun source h => absurd h List.not_mem_nil
  | cons source rest ih =>
      intro s hs hsources
      obtain ⟨hsource, hrest⟩ := List.forall_mem_cons.1 hsources
      refine verifies_bind (verifies_ensureVariantColumn hs present hsource) fun ready t ht hready => ?_
      refine verifies_bind (ih ht.sound hrest) fun others u hu hothers => ?_
      refine verifies_pure hu.sound fun name hname => ?_
      split at hname
      · rename_i hok
        rcases List.mem_cons.1 hname with rfl | hname
        · exact (hready hok).advances hu name (List.mem_singleton_self _)
        · exact hothers name hname
      · exact hothers name hname

theorem verifies_readyVariants (hs : Sound cfg schedule s) (batch : Batch) :
    Verifies cfg schedule s (readyVariants cfg batch)
      (fun ready => CompanionsRead cfg (ready.getD [])) := by
  have hnone : ∀ t : DuckLakeSink lower, CompanionsRead cfg [] t :=
    fun t source h => absurd h List.not_mem_nil
  refine verifies_ite (fun _ => verifies_pure hs (hnone s)) fun _ => ?_
  have hensured : Verifies cfg schedule s (ensureVariantColumns cfg.variantColumns batch.names)
      (CompanionsRead cfg) := by
    refine verifies_ite (fun _ => verifies_pure hs (hnone s)) fun _ => ?_
    refine verifies_bind (verifies_ensureSchemaLoaded hs) fun loaded t ht _ => ?_
    exact verifies_ite (fun _ => verifies_ensureVariantSources _ _ ht.sound fun _ h => h)
      fun _ => verifies_pure ht.sound (hnone t)
  refine verifies_bind hensured fun ready t ht hready => ?_
  refine verifies_pure ht.sound fun source hsource => ?_
  unfold orNone at hsource
  split at hsource
  · exact absurd hsource List.not_mem_nil
  · exact hready source (of_decide_eq_true (List.mem_filter.1 hsource).2)

end Millpond.Ducklake
