import Millpond.Hoglake.Preparation

set_option autoImplicit false

/-! # What evolution makes of a column

Where `_evolve_and_align` asks for an alter, what an answer to it means for the column, and what goes
out of the batch. Each is said of the state the pass is in when it comes to the column, by the answers
of the server from there; the names the pass collects on its way are those. -/

namespace Millpond.Hoglake

open Prog

variable {ρ V : Type} {be : Backend ρ V}

/-! ## Columns stay -/

theorem name_of_column? {batch : Batch ρ V} {name : String} {c : BatchColumn ρ V}
    (h : batch.column? name = some c) : c.name = name := by
  simpa using List.find?_some h

theorem column?_isSome {batch : Batch ρ V} {name : String} :
    (batch.column? name).isSome = true ↔ name ∈ batch.names := by
  unfold Batch.column? Batch.names
  rw [List.find?_isSome, List.mem_map]
  simp

theorem column?_eq_none {batch : Batch ρ V} {name : String} :
    batch.column? name = none ↔ name ∉ batch.names := by
  rw [← Option.not_isSome_iff_eq_none, column?_isSome]

theorem column?_of_mem {batch : Batch ρ V} (hdistinct : batch.names.Nodup) {c : BatchColumn ρ V}
    (hc : c ∈ batch.columns) : batch.column? c.name = some c := by
  unfold Batch.names at hdistinct
  unfold Batch.column?
  generalize batch.columns = columns at hdistinct hc
  induction columns with
  | nil => cases hc
  | cons d rest ih =>
      rw [List.map_cons, List.nodup_cons] at hdistinct
      rcases List.mem_cons.1 hc with rfl | hrest
      · exact List.find?_cons_of_pos (by simp)
      · have hne : ¬ d.name = c.name := fun heq => hdistinct.1 (heq ▸ List.mem_map_of_mem hrest)
        rw [List.find?_cons_of_neg (by simpa using hne)]
        exact ih hdistinct.2 hrest

/-- Columns that are left over are what they were. -/
theorem column?_of_sublist {batch batch' : Batch ρ V} (hdistinct : batch.names.Nodup)
    (hsub : batch'.columns.Sublist batch.columns) {name : String} (hname : name ∈ batch'.names) :
    batch'.column? name = batch.column? name := by
  have hdistinct' : batch'.names.Nodup := (hsub.map _).nodup hdistinct
  obtain ⟨c, hc, rfl⟩ := List.mem_map.1 hname
  rw [column?_of_mem hdistinct' hc, column?_of_mem hdistinct (hsub.subset hc)]

/-- `batch'` has the rows of `batch`, under each name the column that `batch` has there, and nothing
    but nulls under other names. -/
structure Fills (batch batch' : Batch ρ V) : Prop where
  rows : batch'.rows = batch.rows
  columns : ∀ name c, batch.column? name = some c → batch'.column? name = some c
  nulls : ∀ name c, batch'.column? name = some c → name ∉ batch.names → ∀ row, c.cell row = none

theorem Fills.refl (batch : Batch ρ V) : Fills batch batch :=
  ⟨rfl, fun _ _ h => h, fun _ _ h hnot => absurd (column?_isSome.1 (by rw [h]; rfl)) hnot⟩

theorem Fills.trans {batch batch' batch'' : Batch ρ V} (h : Fills batch batch')
    (h' : Fills batch' batch'') : Fills batch batch'' := by
  refine ⟨h'.rows.trans h.rows, fun name c hc => h'.columns name c (h.columns name c hc),
    fun name c hc hnot => ?_⟩
  cases hmid : batch'.column? name with
  | none => exact h'.nulls name c hc (column?_eq_none.1 hmid)
  | some d =>
      obtain rfl : d = c := Option.some.inj ((h'.columns name d hmid).symm.trans hc)
      exact h.nulls name d hmid hnot

theorem column?_appendColumn (batch : Batch ρ V) (column : BatchColumn ρ V) (name : String) :
    (batch.appendColumn column).column? name =
      (batch.column? name).or (if column.name = name then some column else none) := by
  unfold Batch.column? Batch.appendColumn
  rw [List.find?_append]
  by_cases h : column.name = name
  · simp [h]
  · simp [h]

theorem names_appendColumn (batch : Batch ρ V) (column : BatchColumn ρ V) :
    (batch.appendColumn column).names = batch.names ++ [column.name] := List.map_append

theorem nodup_appendColumn {batch : Batch ρ V} {column : BatchColumn ρ V} (h : batch.names.Nodup)
    (hnew : column.name ∉ batch.names) : (batch.appendColumn column).names.Nodup := by
  rw [names_appendColumn]
  refine List.nodup_append.2 ⟨h, List.nodup_singleton _, ?_⟩
  rintro a ha b hb rfl
  exact hnew (List.mem_singleton.1 hb ▸ ha)

theorem fills_appendColumn {batch : Batch ρ V} {column : BatchColumn ρ V}
    (hnull : ∀ row, column.cell row = none) : Fills batch (batch.appendColumn column) := by
  refine ⟨rfl, fun name c hc => ?_, fun name c hc hnot row => ?_⟩
  · rw [column?_appendColumn, hc, Option.some_or]
  · rw [column?_appendColumn, column?_eq_none.2 hnot, Option.none_or] at hc
    split at hc
    · exact Option.some.inj hc ▸ hnull row
    · cases hc

theorem fills_nullFillMissing (liveColumns : List Column) (batch : Batch ρ V) :
    Fills batch (nullFillMissing liveColumns batch) := by
  unfold nullFillMissing
  induction liveColumns generalizing batch with
  | nil => exact .refl batch
  | cons live rest ih =>
      rw [List.foldl_cons]
      refine Fills.trans ?_ (ih _)
      split
      · exact .refl batch
      · exact fills_appendColumn fun _ => rfl

theorem mem_names_nullFillMissing (liveColumns : List Column) {batch : Batch ρ V} {name : String}
    (h : name ∈ batch.names) : name ∈ (nullFillMissing liveColumns batch).names := by
  obtain ⟨c, hc⟩ := Option.isSome_iff_exists.1 (column?_isSome.2 h)
  refine column?_isSome.1 ?_
  rw [(fills_nullFillMissing liveColumns batch).columns name c hc]
  rfl

theorem column?_setColumn {batch : Batch ρ V} {name other : String} {column : BatchColumn ρ V}
    (hcolumn : column.name = other) (h : name ≠ other) :
    (batch.setColumn other column).column? name = batch.column? name := by
  unfold Batch.column? Batch.setColumn
  dsimp only
  induction batch.columns with
  | nil => rfl
  | cons c rest ih =>
      rw [List.map_cons]
      by_cases hc : c.name = other
      · have hname : ¬ c.name = name := fun heq => h (heq.symm.trans hc)
        have hset : ¬ column.name = name := fun heq => h (heq.symm.trans hcolumn)
        rw [if_pos hc, List.find?_cons_of_neg (by simpa using hset),
          List.find?_cons_of_neg (by simpa using hname), ih]
      · rw [if_neg hc]
        by_cases hname : c.name = name
        · rw [List.find?_cons_of_pos (by simpa using hname),
            List.find?_cons_of_pos (by simpa using hname)]
        · rw [List.find?_cons_of_neg (by simpa using hname),
            List.find?_cons_of_neg (by simpa using hname), ih]

theorem name_rewritten (want : HogType) (c : BatchColumn ρ V) : (rewritten be want c).name = c.name := by
  unfold rewritten
  split
  · rfl
  · rfl

theorem column?_rewriteColumn {batch batch' : Batch ρ V} {name other : String} {want : HogType}
    (h : rewriteColumn be other want batch = some batch') (hne : name ≠ other) :
    batch'.column? name = batch.column? name := by
  unfold rewriteColumn at h
  obtain ⟨c, hc, rfl⟩ := Option.map_eq_some_iff.1 h
  exact column?_setColumn ((name_rewritten want c).trans (name_of_column? hc)) hne

theorem rewriteColumn_none {batch : Batch ρ V} {name : String} (want : HogType) :
    rewriteColumn be name want batch = none ↔ name ∉ batch.names := by
  unfold rewriteColumn
  rw [Option.map_eq_none_iff, column?_eq_none]

theorem rewriteColumn_names {batch batch' : Batch ρ V} {name : String} {want : HogType}
    (h : rewriteColumn be name want batch = some batch') : batch'.names = batch.names := by
  unfold rewriteColumn at h
  obtain ⟨c, hc, rfl⟩ := Option.map_eq_some_iff.1 h
  unfold Batch.names Batch.setColumn
  rw [List.map_map]
  refine List.map_congr_left fun d _ => ?_
  simp only [Function.comp_apply]
  by_cases hd : d.name = name
  · rw [if_pos hd, name_rewritten, name_of_column? hc, hd]
  · rw [if_neg hd]

/-! ## Where the pass is -/

/-- The columns of the batch that are not live. -/
def absentColumns (batch : Batch ρ V) (s : St ρ) : List (BatchColumn ρ V) :=
  batch.columns.filter fun c => (liveColumn c.name s.sink).isNone

/-- The columns with a type mapping, as `_add_columns` adds them. -/
def addable (fields : List (BatchColumn ρ V)) : List (String × HogType) :=
  fields.filterMap fun c => c.type.coltype.map fun type => (c.name, type)

def unmapped (fields : List (BatchColumn ρ V)) : List String :=
  (fields.filter (·.type.coltype.isNone)).map (·.name)

/-- One turn of the per-column loop of `_add_columns`. -/
def addTurn (field : String × HogType) : M ρ Bool := addColumn field.1 field.2

theorem isLoop_addEach : IsLoop (addTurn (ρ := ρ)) (fun field live failed =>
    if live then failed else field.1 :: failed) [] addEach := ⟨rfl, fun _ _ => rfl⟩

theorem isLoop_evolveColumns : IsLoop (evolveColumn (ρ := ρ) (V := V)) (fun _ turn others =>
    (turn.1 ++ others.1, turn.2 ++ others.2)) ([], []) evolveColumns := ⟨rfl, fun _ _ => rfl⟩

/-- The pass over the batch comes in `s'` to the alter that adds just this column. -/
def AddsAlone (batch : Batch ρ V) (s : St ρ) (field : String × HogType) (s' : St ρ) : Prop :=
  ∃ s₁, addBatched (addable (absentColumns batch s)) s = .ok false s₁ ∧
    Comes addTurn (addable (absentColumns batch s)) s₁ field s'

/-- The loop of the pass comes to this column in `s'`. -/
def LoopsAt (batch : Batch ρ V) (s : St ρ) (c : BatchColumn ρ V) (s' : St ρ) : Prop :=
  ∃ added s₁, addColumns (absentColumns batch s) s = .ok added s₁ ∧
    Comes evolveColumn batch.columns s₁ c s'

/-! ## What the answers mean -/

/-- The alter that adds this column is refused, and if for a conflict, the column is not in the read
    after it. -/
def AddRefused (name : String) (type : HogType) (s : St ρ) : Prop :=
  ∃ r s₁ e, tableAlter [.addColumn name type] s = .error r s₁ ∧ r.error = .hoglake e ∧
    e.is .idlessFilesPresent = false ∧ (e.is .commitConflict = true →
      ∃ info s₂, tableRead s₁ = .ok info s₂ ∧ name ∉ info.shape.columns.map (·.name))

/-- The alter that promotes this column is refused, and if for a conflict, the column does not have
    the type in the read after it. -/
def PromotionRefused (name : String) (toType : HogType) (s : St ρ) : Prop :=
  ∃ r s₁ e, tableAlter [.promoteColumn name toType] s = .error r s₁ ∧ r.error = .hoglake e ∧
    (e.is .commitConflict = true → ∃ info s₂, tableRead s₁ = .ok info s₂ ∧
      ∀ live, info.shape.columns.find? (·.name = name) = some live → live.type ≠ toType)

/-- The column was not live, and was not added. -/
inductive NotAdded (batch : Batch ρ V) (s : St ρ) : String → Prop
  | unmapped {c : BatchColumn ρ V} (absent : c ∈ absentColumns batch s)
      (untyped : c.type.coltype = none) : NotAdded batch s c.name
  | refused {field : String × HogType} {s' : St ρ} (adds : AddsAlone batch s field s')
      (refused : AddRefused field.1 field.2 s') : NotAdded batch s field.1

/-- The column has no type mapping and is live when the loop comes to it. -/
def LiveUnmapped (batch : Batch ρ V) (s : St ρ) (name : String) : Prop :=
  ∃ c s', LoopsAt batch s c s' ∧ c.name = name ∧ c.type.coltype = none ∧
    (liveColumn name s'.sink).isSome = true

/-- The column is live in a type that can be promoted to its own. -/
def Promotes (c : BatchColumn ρ V) (s : St ρ) (toType : HogType) : Prop :=
  ∃ live want, liveColumn c.name s.sink = some live ∧ c.type.coltype = some want ∧
    live.type ≠ want ∧ promotions.lookup (live.type, want) = some toType

/-- The column is live in the other uuid shape. -/
def Rewrites (c : BatchColumn ρ V) (s : St ρ) (want : HogType) : Prop :=
  ∃ live, liveColumn c.name s.sink = some live ∧ c.type.coltype = some want ∧
    (live.type, want) ∈ uuidRewrites

/-- What evolution counts as a schema error. -/
inductive SchemaError (batch : Batch ρ V) (s : St ρ) : String → Prop
  | notAdded {name : String} (h : NotAdded batch s name) : SchemaError batch s name
  | unmapped {name : String} (h : LiveUnmapped batch s name) : SchemaError batch s name
  | promotion {c : BatchColumn ρ V} {s' : St ρ} {toType : HogType} (comes : LoopsAt batch s c s')
      (promotes : Promotes c s' toType) (refused : PromotionRefused c.name toType s') :
      SchemaError batch s c.name
  | rewrite {c : BatchColumn ρ V} {s' : St ρ} {want : HogType} (comes : LoopsAt batch s c s')
      (rewrites : Rewrites c s' want) : SchemaError batch s c.name

/-! ## One column -/

section

variable {α : Type} {x : M ρ α} {handler : HoglakeError → M ρ α} {s s' : St ρ} {r : Raised}

theorem tryHoglake_ok {a : α} (h : x s = .ok a s') : tryHoglake x handler s = .ok a s' := by
  show EStateM.tryCatch x _ s = _
  unfold EStateM.tryCatch
  rw [h]

theorem tryHoglake_hoglake {e : HoglakeError} (h : x s = .error r s') (he : r.error = .hoglake e) :
    tryHoglake x handler s = handler e s' := by
  show EStateM.tryCatch x _ s = _
  unfold EStateM.tryCatch
  simp only [h, he]
  rfl

theorem tryHoglake_other (h : x s = .error r s') (he : ∀ e, r.error ≠ .hoglake e) :
    tryHoglake x handler s = .error r s' := by
  show EStateM.tryCatch x _ s = _
  unfold EStateM.tryCatch
  simp only [h]
  cases herror : r.error with
  | hoglake e => exact absurd herror (he e)
  | _ => rfl

/-- The state after `_adopt_info`. -/
def St.adopted (s : St ρ) (info : TableInfo) : St ρ := final (adoptInfo info false) s

theorem adopting_ok {info : TableInfo} {x : M ρ TableInfo} {f : M ρ α} (h : x s = .ok info s') :
    (x >>= fun info => adoptInfo info false >>= fun _ => f) s = f (s'.adopted info) := by
  rw [bind_apply_ok h]
  rfl

theorem adopting_error {x : M ρ TableInfo} {f : M ρ α} (h : x s = .error r s') :
    (x >>= fun info => adoptInfo info false >>= fun _ => f) s = .error r s' := bind_apply_error h

@[simp] theorem adopted_liveColumns (info : TableInfo) :
    (s.adopted info).sink.liveColumns = info.shape.columns := rfl

end

/-- No answer came to the call. -/
def Error.isUnanswered : Error → Bool
  | .transport | .killed => true
  | _ => false

theorem wp_settle {α : Type} {handling : Handling} {handled : Except HoglakeError (α × World ρ)}
    {P : Prop} {E : Raised → St ρ → Prop} (h : P) (s : St ρ) :
    wp (settle handling handled) (fun _ _ => P) E s := by
  unfold settle
  split
  · exact h
  · exact h

/-- A call fails by its answer, or because there is none. -/
theorem call_error {α : Type} {handle : World ρ → Except HoglakeError (α × World ρ)} (s : St ρ) :
    wp (call handle) (fun _ _ => True)
      (fun r _ => r.error.isUnanswered = true ∨ ∃ e, r.error = .hoglake e) s := by
  unfold call
  simp only [wp_bind, wp_takeTurn, wp_get]
  cases s.turn.fate with
  | answered =>
      show wp (deliverAnswer (handle s.world.nextTurn)) _ _ _
      unfold deliverAnswer
      cases handle s.world.nextTurn with
      | error e => exact Or.inr ⟨e, rfl⟩
      | ok r => trivial
  | refused e => exact Or.inr ⟨e, rfl⟩
  | lost handling =>
      simp only [wp_bind, wp_raise]
      exact wp_settle (Or.inl rfl) _
  | failed e handling =>
      simp only [wp_bind, wp_raise]
      exact wp_settle (Or.inr ⟨e.error, rfl⟩) _
  | killed handling =>
      simp only [wp_bind, wp_raise]
      exact wp_settle (Or.inl rfl) _

theorem tableAlter_error {ops : List AlterOp} {s s' : St ρ} {r : Raised}
    (h : tableAlter ops s = .error r s') :
    r.error.isUnanswered = true ∨ ∃ e, r.error = .hoglake e := by
  have herror : wp (tableAlter ops : M ρ TableInfo) (fun _ _ => True)
      (fun r _ => r.error.isUnanswered = true ∨ ∃ e, r.error = .hoglake e) s := by
    unfold tableAlter
    simp only [wp_bind, wp_seedHandle, wp_pure]
    exact call_error s
  exact (wp_of_error h).1 herror

theorem tableRead_error {s s' : St ρ} {r : Raised} (h : tableRead s = .error r s') :
    r.error.isUnanswered = true ∨ ∃ e, r.error = .hoglake e := by
  have herror : wp (tableRead : M ρ TableInfo) (fun _ _ => True)
      (fun r _ => r.error.isUnanswered = true ∨ ∃ e, r.error = .hoglake e) s := by
    unfold tableRead
    simp only [wp_bind, wp_seedHandle, wp_pure]
    exact call_error s
  exact (wp_of_error h).1 herror

/-- A request is refused in one way. -/
theorem refusal_unique {ops : List AlterOp} {s s₁ s₂ : St ρ} {r₁ r₂ : Raised} {e₁ e₂ : HoglakeError}
    (h₁ : tableAlter ops s = .error r₁ s₁) (he₁ : r₁.error = .hoglake e₁)
    (h₂ : tableAlter ops s = .error r₂ s₂) (he₂ : r₂.error = .hoglake e₂) : s₁ = s₂ ∧ e₁ = e₂ := by
  obtain ⟨rfl, rfl⟩ := EStateM.Result.error.inj (h₁.symm.trans h₂)
  exact ⟨rfl, Error.hoglake.inj (he₁.symm.trans he₂)⟩

theorem not_hoglake_of_isUnanswered {error : Error} (h : error.isUnanswered = true) (e : HoglakeError) :
    error ≠ .hoglake e := by
  rintro rfl
  cases h

/-- No answer to these alters: the process is cut off, or gone. -/
def Unanswered (ops : List AlterOp) (s : St ρ) (r : Raised) (s' : St ρ) : Prop :=
  tableAlter ops s = .error r s' ∧ r.error.isUnanswered = true

/-- These alters are refused for a live file without field ids, which is fatal to the flush. -/
def Idless (ops : List AlterOp) (s : St ρ) (r : Raised) (s' : St ρ) : Prop :=
  r.error = .sink false ∧ ∃ r₁ e, tableAlter ops s = .error r₁ s' ∧ r₁.error = .hoglake e ∧
    e.is .idlessFilesPresent = true

/-- These alters lose a race, and the read after it fails. -/
def ReadFails (ops : List AlterOp) (s : St ρ) (r : Raised) (s' : St ρ) : Prop :=
  ∃ r₁ s₁ e, tableAlter ops s = .error r₁ s₁ ∧ r₁.error = .hoglake e ∧
    e.is .commitConflict = true ∧ tableRead s₁ = .error r s'

theorem isSome_liveColumn {name : String} {sink : Sink} :
    (liveColumn name sink).isSome = true ↔ name ∈ sink.liveColumns.map (·.name) := by
  unfold liveColumn
  rw [List.find?_isSome, List.mem_map]
  simp

/-- How the add of one column ends. -/
theorem addColumn_cases (name : String) (type : HogType) (s : St ρ) :
    wp (addColumn name type) (fun live _ => live = false ↔ AddRefused name type s)
      (fun r s' => Unanswered [.addColumn name type] s r s' ∨ Idless [.addColumn name type] s r s' ∨
        ReadFails [.addColumn name type] s r s') s := by
  unfold wp addColumn
  cases halter : tableAlter [.addColumn name type] s with
  | ok info s₁ =>
      have hadded := adopting_ok (f := (pure true : M ρ Bool)) halter
      rw [tryHoglake_ok (a := true) hadded]
      show true = false ↔ AddRefused name type s
      refine iff_of_false Bool.true_eq_false.mp ?_
      rintro ⟨r, s₂, e, hrefused, -⟩
      cases halter.symm.trans hrefused
  | error r s₁ =>
      rcases tableAlter_error halter with hgone | ⟨e, he⟩
      · rw [tryHoglake_other (adopting_error halter) (not_hoglake_of_isUnanswered hgone)]
        exact Or.inl ⟨halter, hgone⟩
      · rw [tryHoglake_hoglake (adopting_error halter) he]
        cases hidless : e.is .idlessFilesPresent with
        | true => exact Or.inr (Or.inl ⟨rfl, r, e, halter, he, hidless⟩)
        | false =>
            cases hconflict : e.is .commitConflict with
            | false =>
                refine ⟨fun _ => ⟨r, s₁, e, halter, he, hidless, fun h => ?_⟩, fun _ => rfl⟩
                rw [hconflict] at h
                cases h
            | true =>
                -- lost to another writer: the read decides
                rw [if_neg (by simp), if_pos rfl]
                cases hread : (tableRead : M ρ TableInfo) s₁ with
                | error r₂ s₂ =>
                    rw [adopting_error hread]
                    exact Or.inr (Or.inr ⟨r, s₁, e, halter, he, hconflict, hread⟩)
                | ok info s₂ =>
                    rw [adopting_ok hread]
                    show (liveColumn name (s₂.adopted info).sink).isSome = false ↔ _
                    rw [Bool.eq_false_iff, ne_eq, isSome_liveColumn, adopted_liveColumns]
                    constructor
                    · exact fun h => ⟨r, s₁, e, halter, he, hidless, fun _ => ⟨info, s₂, hread, h⟩⟩
                    · rintro ⟨r', s', e', halter', he', -, hthen⟩
                      obtain ⟨rfl, rfl⟩ := refusal_unique halter he halter' he'
                      obtain ⟨info', s₃, hread', hnot⟩ := hthen hconflict
                      obtain ⟨rfl, -⟩ := EStateM.Result.ok.inj (hread.symm.trans hread')
                      exact hnot

theorem addColumn_false {name : String} {type : HogType} {s s' : St ρ} {live : Bool}
    (h : addColumn name type s = .ok live s') : live = false ↔ AddRefused name type s :=
  (wp_of_ok h).1 (addColumn_cases name type s)

/-- What the alter of all the columns at once raises. -/
theorem addBatched_raises {columns : List (String × HogType)} {s s' : St ρ} {r : Raised}
    (h : addBatched columns s = .error r s') : 1 < columns.length ∧
      (Unanswered (columns.map fun f => .addColumn f.1 f.2) s r s' ∨
        Idless (columns.map fun f => .addColumn f.1 f.2) s r s') := by
  unfold addBatched at h
  split at h
  · next hmany =>
      refine ⟨hmany, ?_⟩
      cases halter : tableAlter (columns.map fun f => .addColumn f.1 f.2) s with
      | ok info s₁ =>
          have hadded := adopting_ok (f := (pure true : M ρ Bool)) halter
          rw [tryHoglake_ok (a := true) hadded] at h
          cases h
      | error r₁ s₁ =>
          rcases tableAlter_error halter with hgone | ⟨e, he⟩
          · rw [tryHoglake_other (adopting_error halter) (not_hoglake_of_isUnanswered hgone)] at h
            obtain ⟨rfl, rfl⟩ := EStateM.Result.error.inj h
            exact Or.inl ⟨halter, hgone⟩
          · rw [tryHoglake_hoglake (adopting_error halter) he] at h
            split at h
            · next hidless =>
                obtain ⟨rfl, rfl⟩ := EStateM.Result.error.inj h
                exact Or.inr ⟨rfl, r₁, e, halter, he, hidless⟩
            · cases h
  · cases h

/-- What a promotion raises: its refusal is handled. -/
theorem promoteColumn_raises {name : String} {toType : HogType} {s s' : St ρ} {r : Raised}
    (h : promoteColumn name toType s = .error r s') :
    Unanswered [.promoteColumn name toType] s r s' ∨ ReadFails [.promoteColumn name toType] s r s' := by
  unfold promoteColumn at h
  cases halter : tableAlter [.promoteColumn name toType] s with
  | ok info s₁ =>
      have hadopted := bind_apply_ok (f := fun info => (adoptInfo info false : M ρ PUnit)) halter
      rw [tryHoglake_ok (a := PUnit.unit) hadopted] at h
      cases h
  | error r₁ s₁ =>
      rcases tableAlter_error halter with hgone | ⟨e, he⟩
      · rw [tryHoglake_other (bind_apply_error halter) (not_hoglake_of_isUnanswered hgone)] at h
        obtain ⟨rfl, rfl⟩ := EStateM.Result.error.inj h
        exact Or.inl ⟨halter, hgone⟩
      · rw [tryHoglake_hoglake (bind_apply_error halter) he] at h
        split at h
        · next hconflict =>
            cases hread : (tableRead : M ρ TableInfo) s₁ with
            | ok info s₂ =>
                rw [bind_apply_ok hread] at h
                cases h
            | error r₂ s₂ =>
                rw [bind_apply_error hread] at h
                obtain ⟨rfl, rfl⟩ := EStateM.Result.error.inj h
                exact Or.inr ⟨r₁, s₁, e, halter, he, hconflict, hread⟩
        · cases h

theorem not_mem_uuidRewrites_self (type : HogType) : (type, type) ∉ uuidRewrites := by
  cases type <;> simp [uuidRewrites]

theorem not_mem_uuidRewrites_of_promoted {pair : HogType × HogType} {promoted : HogType}
    (h : promotions.lookup pair = some promoted) : pair ∉ uuidRewrites := by
  rintro hmem
  unfold uuidRewrites at hmem
  rcases List.mem_cons.1 hmem with rfl | hmem
  · cases h
  · obtain rfl := List.mem_singleton.1 hmem
    cases h

/-- What one turn of the loop lists, and what it raises. -/
theorem evolveColumn_cases (c : BatchColumn ρ V) (s : St ρ) :
    wp (evolveColumn c)
      (fun turn _ =>
        (∀ name, name ∈ turn.1 ↔ name = c.name ∧ c.type.coltype = none ∧
          (liveColumn c.name s.sink).isSome = true) ∧
        turn.1.length ≤ 1 ∧
        (∀ w, w ∈ turn.2 ↔ w.1 = c.name ∧ Rewrites c s w.2) ∧ turn.2.length ≤ 1)
      (fun r s' => ∃ toType, Promotes c s toType ∧
        (Unanswered [.promoteColumn c.name toType] s r s' ∨
          ReadFails [.promoteColumn c.name toType] s r s')) s := by
  -- a turn that lists nothing, where there is nothing to list
  have hnothing : ∀ {P : Prop} {Q : HogType → Prop}, ¬ P → (∀ want, ¬ Q want) →
      (∀ name, name ∈ ([] : List String) ↔ name = c.name ∧ P) ∧ ([] : List String).length ≤ 1 ∧
        (∀ w, w ∈ ([] : List (String × HogType)) ↔ w.1 = c.name ∧ Q w.2) ∧
          ([] : List (String × HogType)).length ≤ 1 := by
    intro P Q hP hQ
    exact ⟨fun _ => iff_of_false List.not_mem_nil fun h => hP h.2, Nat.zero_le _,
      fun w => iff_of_false List.not_mem_nil fun h => hQ w.2 h.2, Nat.zero_le _⟩
  unfold evolveColumn
  rw [wp_bind, wp_get]
  dsimp only
  cases hlive : liveColumn c.name s.sink with
  | none =>
      refine hnothing (by simp) fun want => ?_
      rintro ⟨live, hlive', -⟩
      cases hlive.symm.trans hlive'
  | some live =>
      cases hwant : c.type.coltype with
      | none =>
          refine ⟨fun name => by simp, le_refl _, fun w => ?_, Nat.zero_le _⟩
          refine iff_of_false List.not_mem_nil ?_
          rintro ⟨-, live', -, hwant', -⟩
          cases hwant.symm.trans hwant'
      | some want =>
          have hrewrites : ∀ want', Rewrites c s want' ↔ want' = want ∧ (live.type, want) ∈ uuidRewrites := by
            intro want'
            constructor
            · rintro ⟨live', hlive', hwant', hpair⟩
              obtain rfl := Option.some.inj (hlive.symm.trans hlive')
              obtain rfl := Option.some.inj (hwant.symm.trans hwant')
              exact ⟨rfl, hpair⟩
            · rintro ⟨rfl, hpair⟩
              exact ⟨live, hlive, hwant, hpair⟩
          dsimp only
          split
          · next hsame =>
              -- the types agree, and no rewrite is from a type to itself
              refine hnothing (by simp) fun want' h => ?_
              have hpair := ((hrewrites want').1 h).2
              rw [hsame] at hpair
              exact not_mem_uuidRewrites_self want hpair
          · next hdiffers =>
              cases hpromoted : promotions.lookup (live.type, want) with
              | some promoted =>
                  dsimp only
                  rw [wp_bind]
                  refine wp_mono (wp_run (promoteColumn c.name promoted) s) (fun _ _ _ => ?_) ?_
                  · refine hnothing (by simp) fun want' h => ?_
                    exact not_mem_uuidRewrites_of_promoted hpromoted ((hrewrites want').1 h).2
                  · exact fun r s' h =>
                      ⟨promoted, ⟨live, want, hlive, hwant, hdiffers, hpromoted⟩, promoteColumn_raises h⟩
              | none =>
                  by_cases hpair : (live.type, want) ∈ uuidRewrites
                  · rw [if_pos hpair]
                    refine ⟨fun name => by simp, Nat.zero_le _, fun w => ?_, le_refl _⟩
                    rw [hrewrites, List.mem_singleton]
                    constructor
                    · rintro rfl
                      exact ⟨rfl, rfl, hpair⟩
                    · rintro ⟨hname, hwant', -⟩
                      exact Prod.ext hname hwant'
                  · rw [if_neg hpair]
                    exact hnothing (by simp) fun want' h => hpair ((hrewrites want').1 h).2

/-! ## The lists of the pass -/

theorem mem_unmapped {fields : List (BatchColumn ρ V)} {name : String} :
    name ∈ unmapped fields ↔ ∃ c ∈ fields, c.type.coltype = none ∧ c.name = name := by
  unfold unmapped
  simp only [List.mem_map, List.mem_filter, Option.isNone_iff_eq_none, and_assoc]

theorem addable_names (fields : List (BatchColumn ρ V)) :
    (addable fields).map Prod.fst =
      (fields.filter (·.type.coltype.isSome)).map (·.name) := by
  unfold addable
  induction fields with
  | nil => rfl
  | cons c rest ih =>
      cases hc : c.type.coltype with
      | none =>
          rw [List.filterMap_cons_none (by rw [hc]; rfl), List.filter_cons_of_neg (by simp [hc]), ih]
      | some type =>
          rw [List.filterMap_cons_some (b := (c.name, type)) (by rw [hc]; rfl),
            List.filter_cons_of_pos (by simp [hc]), List.map_cons, List.map_cons, ih]

/-- The columns that failed one by one. -/
theorem addEach_failed {columns : List (String × HogType)} {failed : List String} {s s' : St ρ}
    (h : addEach columns s = .ok failed s') (name : String) :
    name ∈ failed ↔ ∃ field s₁, Comes addTurn columns s field s₁ ∧ AddRefused field.1 field.2 s₁ ∧
      field.1 = name := by
  have hput : ∀ (field : String × HogType) (live : Bool) (rest : List String),
      name ∈ (if live then rest else field.1 :: rest) ↔
        (live = false ∧ field.1 = name) ∨ name ∈ rest := by
    intro field live rest
    cases live with
    | true => simp
    | false => simp [eq_comm]
  have hgathers := isLoop_addEach.gathers (P := (name ∈ ·))
    (Q := fun field live => live = false ∧ field.1 = name) List.not_mem_nil hput h
  rw [hgathers]
  constructor
  · rintro ⟨field, s₁, live, s₂, hcomes, hturn, hlive, hname⟩
    exact ⟨field, s₁, hcomes, (addColumn_false hturn).1 hlive, hname⟩
  · rintro ⟨field, s₁, hcomes, hrefused, hname⟩
    obtain ⟨live, s₂, hturn⟩ := isLoop_addEach.took h hcomes
    exact ⟨field, s₁, live, s₂, hcomes, hturn, (addColumn_false hturn).2 hrefused, hname⟩

theorem addEach_sublist (columns : List (String × HogType)) (s : St ρ) :
    wp (addEach columns) (fun failed _ => failed.Sublist (columns.map Prod.fst)) (fun _ _ => True) s := by
  induction columns generalizing s with
  | nil => exact List.Sublist.refl _
  | cons field rest ih =>
      unfold addEach
      rw [wp_bind]
      refine wp_mono (wp_true _ s) (fun live s₁ _ => ?_) (fun _ _ h => h)
      rw [wp_bind]
      refine wp_mono (ih s₁) (fun failed s₂ h => ?_) (fun _ _ h => h)
      cases live with
      | true => exact h.cons _
      | false => exact h.cons_cons _

theorem addColumns_eq (fields : List (BatchColumn ρ V)) :
    (addColumns fields : M ρ (List String)) =
      if (addable fields).isEmpty then pure (unmapped fields)
      else addBatched (addable fields) >>= fun batched =>
        if batched then pure (unmapped fields)
        else addEach (addable fields) >>= fun failed => pure (unmapped fields ++ failed) := rfl

section

variable {batch : Batch ρ V} {s s₁ s' : St ρ} {field : String × HogType}

theorem not_addsAlone_of_isEmpty (h : (addable (absentColumns batch s)).isEmpty = true) :
    ¬ AddsAlone batch s field s' := by
  rintro ⟨s₁, -, hcomes⟩
  rw [List.isEmpty_iff.1 h] at hcomes
  exact absurd hcomes.mem List.not_mem_nil

theorem not_addsAlone_of_batched (h : addBatched (addable (absentColumns batch s)) s = .ok true s₁) :
    ¬ AddsAlone batch s field s' := by
  rintro ⟨s₂, hfalse, -⟩
  cases h.symm.trans hfalse

theorem addsAlone_iff (h : addBatched (addable (absentColumns batch s)) s = .ok false s₁) :
    AddsAlone batch s field s' ↔ Comes addTurn (addable (absentColumns batch s)) s₁ field s' := by
  constructor
  · rintro ⟨s₂, hfalse, hcomes⟩
    obtain ⟨-, rfl⟩ := EStateM.Result.ok.inj (h.symm.trans hfalse)
    exact hcomes
  · exact fun hcomes => ⟨s₁, h, hcomes⟩

end

/-- **What `_add_columns` gives up** is what is not added. -/
theorem addColumns_ok {batch : Batch ρ V} {s s₁ : St ρ} {added : List String}
    (h : addColumns (absentColumns batch s) s = .ok added s₁) (name : String) :
    name ∈ added ↔ NotAdded batch s name := by
  have hunmapped : name ∈ unmapped (absentColumns batch s) → NotAdded batch s name := by
    intro hname
    obtain ⟨c, hc, htype, rfl⟩ := mem_unmapped.1 hname
    exact .unmapped hc htype
  -- a refusal is one where the loop over the columns comes to the alter
  have hsplit : ∀ {failed : List String}, added = unmapped (absentColumns batch s) ++ failed →
      (name ∈ failed ↔ ∃ field s', AddsAlone batch s field s' ∧ AddRefused field.1 field.2 s' ∧
        field.1 = name) → (name ∈ added ↔ NotAdded batch s name) := by
    rintro failed rfl hfailed
    rw [List.mem_append]
    constructor
    · rintro (hname | hname)
      · exact hunmapped hname
      · obtain ⟨field, s', hadds, hrefused, rfl⟩ := hfailed.1 hname
        exact .refused hadds hrefused
    · rintro (⟨habsent, htype⟩ | ⟨hadds, hrefused⟩)
      · exact Or.inl (mem_unmapped.2 ⟨_, habsent, htype, rfl⟩)
      · exact Or.inr (hfailed.2 ⟨_, _, hadds, hrefused, rfl⟩)
  have hnone : (∀ field s', ¬ AddsAlone batch s field s') →
      (name ∈ ([] : List String) ↔ ∃ field s', AddsAlone batch s field s' ∧
        AddRefused field.1 field.2 s' ∧ field.1 = name) := by
    intro hnever
    refine iff_of_false List.not_mem_nil ?_
    rintro ⟨field, s', hadds, -⟩
    exact hnever field s' hadds
  rw [addColumns_eq] at h
  split at h
  · next hempty =>
      obtain ⟨rfl, rfl⟩ := EStateM.Result.ok.inj h
      exact hsplit (List.append_nil _).symm (hnone fun _ _ => not_addsAlone_of_isEmpty hempty)
  · cases hbatched : addBatched (addable (absentColumns batch s)) s with
    | error r s' =>
        rw [bind_apply_error hbatched] at h
        cases h
    | ok batched s₂ =>
        rw [bind_apply_ok hbatched] at h
        cases batched with
        | true =>
            obtain ⟨rfl, rfl⟩ := EStateM.Result.ok.inj h
            exact hsplit (List.append_nil _).symm (hnone fun _ _ => not_addsAlone_of_batched hbatched)
        | false =>
            rw [if_neg (by simp)] at h
            cases heach : addEach (addable (absentColumns batch s)) s₂ with
            | error r s' =>
                rw [bind_apply_error heach] at h
                cases h
            | ok failed s' =>
                rw [bind_apply_ok heach] at h
                obtain ⟨rfl, rfl⟩ := EStateM.Result.ok.inj h
                refine hsplit rfl ?_
                simp only [addsAlone_iff hbatched]
                exact addEach_failed heach name

/-- What is given up is some of the columns, each once. -/
theorem addColumns_nodup {fields : List (BatchColumn ρ V)} (hdistinct : (fields.map (·.name)).Nodup)
    (s : St ρ) : wp (addColumns fields) (fun added _ => added.Nodup ∧ added ⊆ fields.map (·.name))
      (fun _ _ => True) s := by
  have hunmapped : (unmapped fields).Sublist (fields.map (·.name)) := List.filter_sublist.map _
  have haddable : ((addable fields).map Prod.fst).Sublist (fields.map (·.name)) := by
    rw [addable_names]
    exact List.filter_sublist.map _
  have hnone : (unmapped fields).Nodup ∧ unmapped fields ⊆ fields.map (·.name) :=
    ⟨hunmapped.nodup hdistinct, hunmapped.subset⟩
  rw [addColumns_eq]
  split
  · exact hnone
  · rw [wp_bind]
    refine wp_mono (wp_true _ s) (fun batched s₁ _ => ?_) (fun _ _ h => h)
    cases batched with
    | true => exact hnone
    | false =>
        rw [if_neg (by simp), wp_bind]
        refine wp_mono (addEach_sublist _ s₁) (fun failed s₂ hfailed => ?_) (fun _ _ h => h)
        have hsub := hfailed.trans haddable
        refine ⟨List.nodup_append.2 ⟨hnone.1, hsub.nodup hdistinct, ?_⟩,
          List.append_subset.2 ⟨hnone.2, hsub.subset⟩⟩
        -- a column has a type mapping or it has not
        rintro a ha b hb rfl
        obtain ⟨c, hc, htype, rfl⟩ := mem_unmapped.1 ha
        have hb' := hfailed.subset hb
        rw [addable_names] at hb'
        obtain ⟨d, hd, hname⟩ := List.mem_map.1 hb'
        obtain ⟨hd, hmapped⟩ := List.mem_filter.1 hd
        obtain rfl : d = c := List.inj_on_of_nodup_map hdistinct hd hc hname
        rw [htype] at hmapped
        cases hmapped

/-- What the loop lists is some of the columns, each once. -/
theorem evolveColumns_sublist (columns : List (BatchColumn ρ V)) (s : St ρ) :
    wp (evolveColumns columns) (fun r _ => r.1.Sublist (columns.map (·.name)) ∧
      (r.2.map Prod.fst).Sublist (columns.map (·.name))) (fun _ _ => True) s := by
  have hone : ∀ {l : List String} {name : String}, (∀ a ∈ l, a = name) → l.length ≤ 1 →
      l.Sublist [name] := by
    intro l name hall hlength
    match l with
    | [] => exact List.nil_sublist _
    | [a] => exact hall a List.mem_cons_self ▸ List.Sublist.refl _
  induction columns generalizing s with
  | nil => exact ⟨List.Sublist.refl _, List.Sublist.refl _⟩
  | cons c rest ih =>
      unfold evolveColumns
      rw [wp_bind]
      refine wp_mono (evolveColumn_cases c s) (fun turn s₁ hturn => ?_) (fun _ _ _ => trivial)
      obtain ⟨hfailed, hshort, hlisted, hshort'⟩ := hturn
      rw [wp_bind]
      refine wp_mono (ih s₁) (fun others s₂ h => ?_) (fun _ _ h => h)
      refine ⟨(hone (fun a ha => ((hfailed a).1 ha).1) hshort).append h.1, ?_⟩
      show ((turn.2 ++ others.2).map Prod.fst).Sublist _
      rw [List.map_append]
      refine (hone (fun a ha => ?_) (by simpa using hshort')).append h.2
      obtain ⟨w, hw, rfl⟩ := List.mem_map.1 ha
      exact ((hlisted w).1 hw).1

section Loop

variable {batch : Batch ρ V} {s s₁ s₂ : St ρ} {added : List String}
  {r : List String × List (String × HogType)}

theorem loopsAt_iff (hadd : addColumns (absentColumns batch s) s = .ok added s₁)
    {c : BatchColumn ρ V} {s' : St ρ} :
    LoopsAt batch s c s' ↔ Comes evolveColumn batch.columns s₁ c s' := by
  constructor
  · rintro ⟨added', s₁', hadd', hcomes⟩
    obtain ⟨-, rfl⟩ := EStateM.Result.ok.inj (hadd.symm.trans hadd')
    exact hcomes
  · exact fun hcomes => ⟨added, s₁, hadd, hcomes⟩

/-- **What the loop gives up** is what is live without a type mapping. -/
theorem evolveColumns_failed (hadd : addColumns (absentColumns batch s) s = .ok added s₁)
    (hloop : evolveColumns batch.columns s₁ = .ok r s₂) (name : String) :
    name ∈ r.1 ↔ LiveUnmapped batch s name := by
  have hgathers := isLoop_evolveColumns.gathers (P := (name ∈ ·.1)) (Q := fun _ turn => name ∈ turn.1)
    List.not_mem_nil (fun _ _ _ => List.mem_append) hloop
  rw [hgathers]
  constructor
  · rintro ⟨c, s', turn, t, hcomes, hturn, hname⟩
    obtain ⟨rfl, htype, hlive⟩ := (((wp_of_ok hturn).1 (evolveColumn_cases c s')).1 name).1 hname
    exact ⟨c, s', (loopsAt_iff hadd).2 hcomes, rfl, htype, hlive⟩
  · rintro ⟨c, s', hcomes, rfl, htype, hlive⟩
    have hcomes' := (loopsAt_iff hadd).1 hcomes
    obtain ⟨turn, t, hturn⟩ := isLoop_evolveColumns.took hloop hcomes'
    exact ⟨c, s', turn, t, hcomes', hturn,
      (((wp_of_ok hturn).1 (evolveColumn_cases c s')).1 c.name).2 ⟨rfl, htype, hlive⟩⟩

/-- **What the loop lists for a rewrite** is what is live in the other uuid shape. -/
theorem evolveColumns_rewrites (hadd : addColumns (absentColumns batch s) s = .ok added s₁)
    (hloop : evolveColumns batch.columns s₁ = .ok r s₂) (w : String × HogType) :
    w ∈ r.2 ↔ ∃ c s', LoopsAt batch s c s' ∧ w.1 = c.name ∧ Rewrites c s' w.2 := by
  have hgathers := isLoop_evolveColumns.gathers (P := (w ∈ ·.2)) (Q := fun _ turn => w ∈ turn.2)
    List.not_mem_nil (fun _ _ _ => List.mem_append) hloop
  rw [hgathers]
  constructor
  · rintro ⟨c, s', turn, t, hcomes, hturn, hw⟩
    have hrewrites := (((wp_of_ok hturn).1 (evolveColumn_cases c s')).2.2.1 w).1 hw
    exact ⟨c, s', (loopsAt_iff hadd).2 hcomes, hrewrites⟩
  · rintro ⟨c, s', hcomes, hrewrites⟩
    have hcomes' := (loopsAt_iff hadd).1 hcomes
    obtain ⟨turn, t, hturn⟩ := isLoop_evolveColumns.took hloop hcomes'
    exact ⟨c, s', turn, t, hcomes', hturn,
      (((wp_of_ok hturn).1 (evolveColumn_cases c s')).2.2.1 w).2 hrewrites⟩

end Loop

/-! ## What goes out of the batch -/

open Classical in
/-- What `drop_columns` is asked for, in the order of the batch: a column twice that was not live and
    not added, and is live without a type mapping later. -/
noncomputable def givenUp (batch : Batch ρ V) (s : St ρ) : List String :=
  batch.names.filter (NotAdded batch s ·) ++ batch.names.filter (LiveUnmapped batch s ·)

/-- The column is in the batch after `drop_columns`. -/
def Spared (batch : Batch ρ V) (s : St ρ) (name : String) : Prop :=
  ∃ rest, batch.dropColumns (givenUp batch s) = some rest ∧ name ∈ rest.names

theorem dropColumns_givenUp {batch : Batch ρ V} (hdistinct : batch.names.Nodup) {s s₁ s₂ : St ρ}
    {added : List String} {r : List String × List (String × HogType)}
    (hadd : addColumns (absentColumns batch s) s = .ok added s₁)
    (hloop : evolveColumns batch.columns s₁ = .ok r s₂) :
    batch.dropColumns (added ++ r.1) = batch.dropColumns (givenUp batch s) := by
  classical
  have habsent : ((absentColumns batch s).map (·.name)).Sublist batch.names :=
    List.filter_sublist.map _
  obtain ⟨hnodup, hsub⟩ := (wp_of_ok hadd).1 (addColumns_nodup (habsent.nodup hdistinct) s)
  have hsub' := ((wp_of_ok hloop).1 (evolveColumns_sublist batch.columns s₁)).1
  refine batch.dropColumns_perm (List.Perm.append ?_ ?_)
  · refine (List.perm_ext_iff_of_nodup hnodup (hdistinct.filter _)).2 fun name => ?_
    rw [List.mem_filter, decide_eq_true_eq, ← addColumns_ok hadd]
    exact ⟨fun h => ⟨habsent.subset (hsub h), h⟩, And.right⟩
  · refine (List.perm_ext_iff_of_nodup (hsub'.nodup hdistinct) (hdistinct.filter _)).2 fun name => ?_
    rw [List.mem_filter, decide_eq_true_eq, ← evolveColumns_failed hadd hloop]
    exact ⟨fun h => ⟨hsub'.subset h, h⟩, And.right⟩

/-! ## The rewrites -/

theorem column?_setColumn_self {batch : Batch ρ V} {name : String} {c d : BatchColumn ρ V}
    (hc : batch.column? name = some c) (hd : d.name = name) :
    (batch.setColumn name d).column? name = some d := by
  unfold Batch.column? Batch.setColumn at *
  dsimp only
  generalize batch.columns = columns at hc ⊢
  induction columns with
  | nil => cases hc
  | cons e rest ih =>
      rw [List.map_cons]
      by_cases he : e.name = name
      · rw [if_pos he, List.find?_cons_of_pos (by simpa using hd)]
      · rw [if_neg he, List.find?_cons_of_neg (by simpa using he)]
        rw [List.find?_cons_of_neg (by simpa using he)] at hc
        exact ih hc

theorem rewriteColumn_column? {batch batch' : Batch ρ V} {name : String} {want : HogType}
    (h : rewriteColumn be name want batch = some batch') :
    batch'.column? name = (batch.column? name).map (rewritten be want) := by
  unfold rewriteColumn at h
  obtain ⟨c, hc, rfl⟩ := Option.map_eq_some_iff.1 h
  rw [hc, Option.map_some]
  exact column?_setColumn_self hc ((name_rewritten want c).trans (name_of_column? hc))

/-- The batch after these rewrites of columns it has. -/
structure RewrittenBy (be : Backend ρ V) (rewrites : List (String × HogType))
    (batch b : Batch ρ V) : Prop where
  rows : b.rows = batch.rows
  names : b.names = batch.names
  others : ∀ name, name ∉ rewrites.map Prod.fst → b.column? name = batch.column? name
  own : ∀ w ∈ rewrites, b.column? w.1 = (batch.column? w.1).map (rewritten be w.2)

/-- The rewrites raise for a name that the batch does not have, and else rewrite their columns. -/
theorem rewriteColumns_spec (be : Backend ρ V) {rewrites : List (String × HogType)}
    (hdistinct : (rewrites.map Prod.fst).Nodup) (batch : Batch ρ V) (s : St ρ) :
    wp (rewriteColumns be rewrites batch)
      (fun b s' => s' = s ∧ (∀ w ∈ rewrites, w.1 ∈ batch.names) ∧ RewrittenBy be rewrites batch b)
      (fun r _ => r.error = .value ∧ ∃ w ∈ rewrites, w.1 ∉ batch.names) s := by
  induction rewrites generalizing batch with
  | nil =>
      exact ⟨rfl, fun w hw => absurd hw List.not_mem_nil, rfl, rfl, fun _ _ => rfl,
        fun w hw => absurd hw List.not_mem_nil⟩
  | cons w rest ih =>
      rw [List.map_cons, List.nodup_cons] at hdistinct
      unfold rewriteColumns
      cases hr : rewriteColumn be w.1 w.2 batch with
      | none => exact ⟨rfl, w, List.mem_cons_self, (rewriteColumn_none w.2).1 hr⟩
      | some batch' =>
          have hmem : w.1 ∈ batch.names := by
            by_contra hnot
            cases ((rewriteColumn_none w.2).2 hnot).symm.trans hr
          have hnames := rewriteColumn_names hr
          refine wp_mono (ih hdistinct.2 batch') ?_ ?_
          · rintro b s' ⟨rfl, hall, hb⟩
            refine ⟨rfl, fun v hv => ?_, hb.rows.trans (rewriteColumn_rows hr),
              hb.names.trans hnames, fun name hname => ?_, fun v hv => ?_⟩
            · rcases List.mem_cons.1 hv with rfl | hv
              · exact hmem
              · exact hnames ▸ hall v hv
            · rw [List.map_cons, List.mem_cons, not_or] at hname
              rw [hb.others name hname.2, column?_rewriteColumn hr hname.1]
            · rcases List.mem_cons.1 hv with rfl | hv
              · rw [hb.others _ hdistinct.1, rewriteColumn_column? hr]
              · have hne : v.1 ≠ w.1 := fun heq => hdistinct.1 (heq ▸ List.mem_map_of_mem hv)
                rw [hb.own v hv, column?_rewriteColumn hr hne]
          · rintro r s' ⟨hvalue, v, hv, hnot⟩
            exact ⟨hvalue, v, List.mem_cons_of_mem _ hv, hnames ▸ hnot⟩

/-! ## The pass as a whole -/

/-- The passes that end: what was added, what the loop listed, what is left of the batch, and what the
    rewrites made of it. -/
theorem evolveAndAlign_ok {batch evolved : Batch ρ V} {s s' : St ρ}
    (h : evolveAndAlign be batch s = .ok evolved s') :
    ∃ added s₁ r s₂ dropped b, addColumns (absentColumns batch s) s = .ok added s₁ ∧
      evolveColumns batch.columns s₁ = .ok r s₂ ∧
      batch.dropColumns (added ++ r.1) = some dropped ∧
      rewriteColumns be r.2 dropped s₂ = .ok b s' ∧
      evolved = nullFillMissing s'.sink.liveColumns b := by
  have hrun : wp (evolveAndAlign be batch) (fun evolved s' => ∃ added s₁ r s₂ dropped b,
      addColumns (absentColumns batch s) s = .ok added s₁ ∧
      evolveColumns batch.columns s₁ = .ok r s₂ ∧
      batch.dropColumns (added ++ r.1) = some dropped ∧
      rewriteColumns be r.2 dropped s₂ = .ok b s' ∧
      evolved = nullFillMissing s'.sink.liveColumns b) (fun _ _ => True) s := by
    unfold evolveAndAlign
    rw [wp_bind, wp_get]
    dsimp only
    rw [wp_bind]
    refine wp_mono (wp_run (addColumns (absentColumns batch s)) s) (fun added s₁ hadd => ?_)
      (fun _ _ _ => trivial)
    rw [wp_bind]
    refine wp_mono (wp_run _ s₁) (fun r s₂ hloop => ?_) (fun _ _ _ => trivial)
    obtain ⟨failed, rewrites⟩ := r
    dsimp only
    cases hdrop : batch.dropColumns (added ++ failed) with
    | none => trivial
    | some dropped =>
        simp only [wp_bind, wp_get, wp_pure]
        refine wp_mono (wp_run _ s₂) (fun b s₃ hrewrite => ?_) (fun _ _ _ => trivial)
        exact ⟨added, s₁, (failed, rewrites), s₂, dropped, b, hadd, hloop, hdrop, hrewrite, rfl⟩
  exact (wp_of_ok h).1 hrun

/-- **A column after the pass** is what it was, if it was spared and nothing was counted for it, and
    null, if it was not spared and is there again. -/
theorem evolveAndAlign_columns {batch evolved : Batch ρ V} (hdistinct : batch.names.Nodup)
    {s s' : St ρ} (h : evolveAndAlign be batch s = .ok evolved s') (name : String) :
    (Spared batch s name → ¬ SchemaError batch s name →
      evolved.column? name = batch.column? name) ∧
    (¬ Spared batch s name → ∀ c, evolved.column? name = some c → ∀ row, c.cell row = none) := by
  obtain ⟨added, s₁, r, s₂, dropped, b, hadd, hloop, hdrop, hrewrite, rfl⟩ := evolveAndAlign_ok h
  have hlisted := ((wp_of_ok hloop).1 (evolveColumns_sublist batch.columns s₁)).2.nodup hdistinct
  obtain ⟨rfl, -, hb⟩ := (wp_of_ok hrewrite).1 (rewriteColumns_spec be hlisted dropped s₂)
  have hfills := fills_nullFillMissing s'.sink.liveColumns b
  have hspared : Spared batch s name ↔ name ∈ dropped.names := by
    unfold Spared
    rw [← dropColumns_givenUp hdistinct hadd hloop, hdrop]
    constructor
    · rintro ⟨rest, hrest, hname⟩
      exact Option.some.inj hrest ▸ hname
    · exact fun hname => ⟨dropped, rfl, hname⟩
  rw [hspared]
  refine ⟨fun hname hnot => ?_, fun hname c hc => ?_⟩
  · have hother : name ∉ r.2.map Prod.fst := by
      intro hmem
      obtain ⟨w, hw, rfl⟩ := List.mem_map.1 hmem
      obtain ⟨c, t, hcomes, hsame, hrewrites⟩ := (evolveColumns_rewrites hadd hloop w).1 hw
      exact hnot (hsame ▸ .rewrite hcomes hrewrites)
    have hleft := column?_of_sublist hdistinct (Batch.dropColumns_sublist hdrop).2 hname
    obtain ⟨c, hc⟩ := Option.isSome_iff_exists.1 (column?_isSome.2 hname)
    rw [hfills.columns name c ((hb.others name hother).trans hc), ← hleft, hc]
  · exact hfills.nulls name c hc (hb.names ▸ hname)

end Millpond.Hoglake
