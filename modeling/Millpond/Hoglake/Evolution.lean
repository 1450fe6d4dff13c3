import Millpond.Hoglake.ColumnFates
import Millpond.Hoglake.Publication

set_option autoImplicit false

/-! # Evolution, column by column

`_evolve_and_align` against any live schema and any other writers: a column whose add is refused goes
from the batch, every other one stays, and what the live schema has beside them is filled with nulls.
The live schema is taken anew from every answer, so that a column can be live when the loop comes to
it although its add was refused; a uuid or text column that comes back in the other shape is then
listed for a rewrite of a column that the batch no longer has. -/

namespace Millpond.Hoglake

open Prog

variable {ρ V : Type} (be : Backend ρ V)

/-! ## The property -/

/-- What may end an evolution besides its return, each of an alter the pass asks for where it comes to
    it: no answer, the live file without field ids that makes every add fail, and a read after a
    conflict that fails. -/
inductive Outside (batch : Batch ρ V) (s : St ρ) (r : Raised) (s' : St ρ) : Prop
  | together (several : 1 < (addable (absentColumns batch s)).length)
      (ends : Unanswered ((addable (absentColumns batch s)).map fun f => .addColumn f.1 f.2) s r s' ∨
        Idless ((addable (absentColumns batch s)).map fun f => .addColumn f.1 f.2) s r s')
  | alone {field : String × HogType} {s₁ : St ρ} (adds : AddsAlone batch s field s₁)
      (ends : Unanswered [.addColumn field.1 field.2] s₁ r s' ∨
        Idless [.addColumn field.1 field.2] s₁ r s' ∨ ReadFails [.addColumn field.1 field.2] s₁ r s')
  | promotion {c : BatchColumn ρ V} {s₁ : St ρ} {toType : HogType} (comes : LoopsAt batch s c s₁)
      (promotes : Promotes c s₁ toType) (ends : Unanswered [.promoteColumn c.name toType] s₁ r s' ∨
        ReadFails [.promoteColumn c.name toType] s₁ r s')

/-- A uuid column as text, or a text column as uuids, null where the text is none. -/
def IsRewrite (c d : BatchColumn ρ V) : Prop :=
  (c.type = .of .uuid ∧ d = ⟨c.name, .of .string, fun row => (c.cell row).map be.uuidText⟩) ∨
    (c.type = .of .string ∧ d = ⟨c.name, .of .uuid, fun row => (c.cell row).bind be.uuidBytes⟩)

/-- Every live column is there once, null if the batch lacks it, and every column of the batch keeps
    its values unless its add was refused. -/
structure AlignedTo (batch : Batch ρ V) (s : St ρ) (result : Batch ρ V) (s' : St ρ) : Prop where
  rows : result.rows = batch.rows
  once : ∀ name live, liveColumn name s'.sink = some live → result.names.count name = 1
  null : ∀ name live, liveColumn name s'.sink = some live → name ∉ batch.names →
    result.column? name = some ⟨name, .of live.type, fun _ => none⟩
  kept : ∀ c ∈ batch.columns, ¬ NotAdded batch s c.name →
    ∃ d, result.column? c.name = some d ∧ (d = c ∨ IsRewrite be c d)

/-- Evolution degrades by columns and does not fail. -/
def Degrades (batch : Batch ρ V) (s : St ρ) : Prop :=
  wp (evolveAndAlign be batch) (AlignedTo be batch s) (Outside batch s) s

/-- The add of a uuid or text column was refused, and when the loop comes to the column it is live in
    the other shape; and the loop comes to its end. -/
def ComesBack (batch : Batch ρ V) (s : St ρ) : Prop :=
  (∃ c s₁ want, NotAdded batch s c.name ∧ LoopsAt batch s c s₁ ∧ Rewrites c s₁ want) ∧
    ∃ added s₁ r s₂, addColumns (absentColumns batch s) s = .ok added s₁ ∧
      evolveColumns batch.columns s₁ = .ok r s₂

/-! ## What ends an evolution -/

variable {be} {batch : Batch ρ V} {s s₁ s' : St ρ} {added : List String} {r : Raised}

theorem addColumns_raises (h : addColumns (absentColumns batch s) s = .error r s') :
    Outside batch s r s' := by
  rw [addColumns_eq] at h
  split at h
  · cases h
  · cases hbatched : addBatched (addable (absentColumns batch s)) s with
    | error r₁ s₁ =>
        rw [bind_apply_error hbatched] at h
        obtain ⟨rfl, rfl⟩ := EStateM.Result.error.inj h
        obtain ⟨hseveral, hends⟩ := addBatched_raises hbatched
        exact .together hseveral hends
    | ok batched s₁ =>
        rw [bind_apply_ok hbatched] at h
        cases batched with
        | true => cases h
        | false =>
            rw [if_neg (by simp)] at h
            cases heach : addEach (addable (absentColumns batch s)) s₁ with
            | ok failed s₂ =>
                rw [bind_apply_ok heach] at h
                cases h
            | error r₂ s₂ =>
                rw [bind_apply_error heach] at h
                obtain ⟨rfl, rfl⟩ := EStateM.Result.error.inj h
                obtain ⟨field, s₃, hcomes, hturn⟩ := isLoop_addEach.raises heach
                exact .alone ⟨s₁, hbatched, hcomes⟩ ((wp_of_error hturn).1 (addColumn_cases _ _ s₃))

theorem evolveColumns_raises (hadd : addColumns (absentColumns batch s) s = .ok added s₁)
    (h : evolveColumns batch.columns s₁ = .error r s') : Outside batch s r s' := by
  obtain ⟨c, s₂, hcomes, hturn⟩ := isLoop_evolveColumns.raises h
  obtain ⟨toType, hpromotes, hends⟩ := (wp_of_error hturn).1 (evolveColumn_cases c s₂)
  exact .promotion ((loopsAt_iff hadd).2 hcomes) hpromotes hends

/-- What ends an evolution from outside is no `ValueError`. -/
theorem Outside.not_value (h : Outside batch s r s') : r.error ≠ .value := by
  intro hvalue
  have hanswer : ∀ {ops : List AlterOp} {s₁ : St ρ}, ¬ Unanswered ops s₁ r s' := by
    rintro ops s₁ ⟨-, hgone⟩
    rw [hvalue] at hgone
    cases hgone
  have hidless : ∀ {ops : List AlterOp} {s₁ : St ρ}, ¬ Idless ops s₁ r s' := by
    rintro ops s₁ ⟨hsink, -⟩
    cases hvalue.symm.trans hsink
  have hread : ∀ {ops : List AlterOp} {s₁ : St ρ}, ¬ ReadFails ops s₁ r s' := by
    rintro ops s₁ ⟨r₁, s₂, e, -, -, -, hread⟩
    rcases tableRead_error hread with hgone | ⟨e', he'⟩
    · rw [hvalue] at hgone
      cases hgone
    · cases hvalue.symm.trans he'
  cases h with
  | together several ends => exact ends.elim hanswer hidless
  | alone adds ends => exact ends.elim hanswer fun h => h.elim hidless hread
  | promotion comes promotes ends => exact ends.elim hanswer hread

/-! ## Filling -/

/-- Filling keeps names distinct, brings every live name and fills what was not there with nulls. -/
theorem nullFillMissing_spec (live : List Column) {batch : Batch ρ V} (hdistinct : batch.names.Nodup) :
    (nullFillMissing live batch).names.Nodup ∧
      (∀ c ∈ live, c.name ∈ (nullFillMissing live batch).names) ∧
      ∀ name c, name ∉ batch.names → live.find? (·.name = name) = some c →
        (nullFillMissing live batch).column? name = some ⟨name, .of c.type, fun _ => none⟩ := by
  induction live generalizing batch with
  | nil => exact ⟨hdistinct, fun c hc => absurd hc List.not_mem_nil, fun name c _ h => by cases h⟩
  | cons d rest ih =>
      have hfill : nullFillMissing (d :: rest) batch = nullFillMissing rest
          (if d.name ∈ batch.names then batch
            else batch.appendColumn ⟨d.name, .of d.type, fun _ => none⟩) := rfl
      rw [hfill]
      by_cases hd : d.name ∈ batch.names
      · rw [if_pos hd]
        obtain ⟨hnodup, hall, hnull⟩ := ih hdistinct
        refine ⟨hnodup, fun c hc => ?_, fun name c hname hfind => hnull name c hname ?_⟩
        · rcases List.mem_cons.1 hc with rfl | hc
          · exact mem_names_nullFillMissing rest hd
          · exact hall c hc
        · have hne : ¬ d.name = name := fun heq => hname (heq ▸ hd)
          rwa [List.find?_cons_of_neg (by simpa using hne)] at hfind
      · rw [if_neg hd]
        generalize hadded : (⟨d.name, .of d.type, fun _ => none⟩ : BatchColumn ρ V) = added
        have hname : added.name = d.name := by rw [← hadded]
        obtain ⟨hnodup, hall, hnull⟩ := ih (nodup_appendColumn hdistinct (hname ▸ hd))
        have hown : d.name ∈ (batch.appendColumn added).names := by
          rw [names_appendColumn, hname]
          exact List.mem_append_right _ (List.mem_singleton_self _)
        refine ⟨hnodup, fun c hc => ?_, fun name c hnot hfind => ?_⟩
        · rcases List.mem_cons.1 hc with rfl | hc
          · exact mem_names_nullFillMissing rest hown
          · exact hall c hc
        · by_cases hne : d.name = name
          -- the column just appended, which the rest leaves as it is
          · subst hne
            rw [List.find?_cons_of_pos (by simp)] at hfind
            obtain rfl := Option.some.inj hfind
            refine (fills_nullFillMissing rest _).columns _ _ ?_
            rw [column?_appendColumn, column?_eq_none.2 hd, hname, if_pos rfl, hadded]
            rfl
          · rw [List.find?_cons_of_neg (by simpa using hne)] at hfind
            refine hnull name c ?_ hfind
            rw [names_appendColumn, hname, List.mem_append, List.mem_singleton]
            rintro (hmem | heq)
            · exact hnot hmem
            · exact hne heq.symm

/-! ## Evolution as a whole -/

/-- With a mapping for every type, the loop gives up nothing. -/
theorem evolveColumns_failed_nil (hmapped : ∀ c ∈ batch.columns, c.type.coltype.isSome = true)
    {t : List String × List (String × HogType)} {s₂ : St ρ}
    (hadd : addColumns (absentColumns batch s) s = .ok added s₁)
    (hloop : evolveColumns batch.columns s₁ = .ok t s₂) : t.1 = [] := by
  refine List.eq_nil_iff_forall_not_mem.2 fun name hname => ?_
  obtain ⟨c, s', ⟨added', s₁', -, hcomes⟩, -, htype, -⟩ :=
    (evolveColumns_failed hadd hloop name).1 hname
  have hsome := hmapped c hcomes.mem
  rw [htype] at hsome
  cases hsome

/-- Then the columns whose adds were refused go from the batch, and no other. -/
theorem dropColumns_added (hdistinct : batch.names.Nodup)
    (hadd : addColumns (absentColumns batch s) s = .ok added s₁) :
    batch.dropColumns added = some (batch.withoutColumns added) := by
  have habsent : ((absentColumns batch s).map (·.name)).Sublist batch.names :=
    List.filter_sublist.map _
  obtain ⟨hnodup, hsub⟩ := (wp_of_ok hadd).1 (addColumns_nodup (habsent.nodup hdistinct) s)
  exact Batch.dropColumns_of_nodup hdistinct hnodup fun _ h => habsent.subset (hsub h)

/-- What the loop lists for a rewrite is a uuid or text column of the batch. -/
theorem rewrites_shape {t : List String × List (String × HogType)} {s₂ : St ρ}
    (hadd : addColumns (absentColumns batch s) s = .ok added s₁)
    (hloop : evolveColumns batch.columns s₁ = .ok t s₂) :
    ∀ w ∈ t.2, ∃ c ∈ batch.columns, c.name = w.1 ∧ c.type = .of w.2 ∧
      (w.2 = .uuid ∨ w.2 = .string) := by
  intro w hw
  obtain ⟨c, s', ⟨added', s₁', -, hcomes⟩, hname, live, -, hwant, hpair⟩ :=
    (evolveColumns_rewrites hadd hloop w).1 hw
  refine ⟨c, hcomes.mem, hname.symm, ?_, ?_⟩
  · cases htype : c.type with
    | of type =>
        rw [htype] at hwant
        exact congrArg ArrowType.of (Option.some.inj hwant)
    | unmapped name =>
        rw [htype] at hwant
        cases hwant
  · unfold uuidRewrites at hpair
    simp only [List.mem_cons, Prod.mk.injEq, List.not_mem_nil, or_false] at hpair
    exact hpair.imp And.right And.right

/-- What the rewrites leave of a column whose add was not refused. -/
theorem kept_of_rewrittenBy {b : Batch ρ V} {rewrites : List (String × HogType)}
    (hdistinct : batch.names.Nodup)
    (hlisted : ∀ w ∈ rewrites, ∃ c ∈ batch.columns, c.name = w.1 ∧ c.type = .of w.2 ∧
      (w.2 = .uuid ∨ w.2 = .string))
    (hb : RewrittenBy be rewrites (batch.withoutColumns added) b) {c : BatchColumn ρ V}
    (hc : c ∈ batch.columns) (hnot : c.name ∉ added) :
    ∃ d, b.column? c.name = some d ∧ (d = c ∨ IsRewrite be c d) := by
  have hleft : (batch.withoutColumns added).column? c.name = some c := by
    have hmem : c.name ∈ (batch.withoutColumns added).names := by
      rw [Batch.names_withoutColumns]
      exact List.mem_filter.2 ⟨List.mem_map_of_mem hc, decide_eq_true hnot⟩
    rw [column?_of_sublist hdistinct List.filter_sublist hmem, column?_of_mem hdistinct hc]
  by_cases hin : c.name ∈ rewrites.map Prod.fst
  · obtain ⟨w, hw, hname⟩ := List.mem_map.1 hin
    obtain ⟨c', hc', hname', htype, hshape⟩ := hlisted w hw
    have hsame : c' = c := by
      have h := column?_of_mem hdistinct hc'
      rw [hname', hname, column?_of_mem hdistinct hc] at h
      exact (Option.some.inj h).symm
    subst hsame
    have hown : b.column? c'.name = some (rewritten be w.2 c') := by
      have h := hb.own w hw
      rwa [hname, hleft, Option.map_some] at h
    refine ⟨_, hown, Or.inr ?_⟩
    rcases hshape with huuid | hstring
    · exact Or.inl ⟨by rw [htype, huuid], by rw [huuid]; rfl⟩
    · exact Or.inr ⟨by rw [htype, hstring], by rw [hstring]; rfl⟩
  · exact ⟨c, (hb.others _ hin).trans hleft, Or.inl rfl⟩

/-- What filling makes of a batch whose columns were dropped and rewritten. -/
theorem alignedTo_of_rewrittenBy {b : Batch ρ V} {rewrites : List (String × HogType)}
    (hdistinct : batch.names.Nodup)
    (hadd : addColumns (absentColumns batch s) s = .ok added s₁)
    (hlisted : ∀ w ∈ rewrites, ∃ c ∈ batch.columns, c.name = w.1 ∧ c.type = .of w.2 ∧
      (w.2 = .uuid ∨ w.2 = .string))
    (hb : RewrittenBy be rewrites (batch.withoutColumns added) b) (s' : St ρ) :
    AlignedTo be batch s (nullFillMissing s'.sink.liveColumns b) s' := by
  have hnames : b.names.Sublist batch.names := hb.names ▸ List.filter_sublist.map _
  obtain ⟨hnodup, hall, hnull⟩ := nullFillMissing_spec s'.sink.liveColumns (hnames.nodup hdistinct)
  refine ⟨?_, fun name live hlive => ?_, fun name live hlive hlacks => ?_, fun c hc hnot => ?_⟩
  · rw [nullFillMissing_rows, hb.rows]
    rfl
  · have hmem := hall live (List.mem_of_find?_eq_some hlive)
    have hname : live.name = name := by simpa using List.find?_some hlive
    exact List.count_eq_one_of_mem hnodup (hname ▸ hmem)
  · exact hnull name live (fun hmem => hlacks (hnames.subset hmem)) hlive
  · have hkept := fun h => hnot ((addColumns_ok hadd c.name).1 h)
    obtain ⟨d, hd, hsame⟩ := kept_of_rewrittenBy hdistinct hlisted hb hc hkept
    exact ⟨d, (fills_nullFillMissing _ _).columns _ _ hd, hsame⟩

/-- A `ValueError` is nothing from outside. -/
theorem not_degrades_of_raises
    (hraises : wp (evolveAndAlign be batch) (fun _ _ => False) (fun e _ => e.error = .value) s) :
    ¬ Degrades be batch s := by
  intro hdegrades
  have hboth := wp_and hdegrades hraises
  cases hrun : evolveAndAlign be batch s with
  | ok b s' => exact ((wp_of_ok hrun).1 hboth).2
  | error e s' =>
      obtain ⟨hends, hvalue⟩ := (wp_of_error hrun).1 hboth
      exact hends.not_value hvalue

/-- A column that comes back makes the rewrites raise. -/
theorem not_degrades_of_comesBack (hdistinct : batch.names.Nodup)
    (hmapped : ∀ c ∈ batch.columns, c.type.coltype.isSome = true) (h : ComesBack batch s) :
    ¬ Degrades be batch s := by
  obtain ⟨⟨c, t, want, hrefused, hcomes, hrewrites⟩, added, s₁, ⟨failed, rewrites⟩, s₂, hadd, hloop⟩ := h
  have hlisted : (c.name, want) ∈ rewrites :=
    (evolveColumns_rewrites hadd hloop (c.name, want)).2 ⟨c, t, hcomes, rfl, hrewrites⟩
  have hgone : c.name ∈ added := (addColumns_ok hadd c.name).2 hrefused
  obtain rfl : failed = [] := evolveColumns_failed_nil hmapped hadd hloop
  have hraises : wp (evolveAndAlign be batch) (fun _ _ => False) (fun e _ => e.error = .value) s := by
    unfold evolveAndAlign
    rw [wp_bind, wp_get]
    dsimp only
    rw [wp_bind]
    refine (wp_of_ok hadd).2 ?_
    rw [wp_bind]
    refine (wp_of_ok hloop).2 ?_
    dsimp only
    rw [List.append_nil, dropColumns_added hdistinct hadd]
    dsimp only
    rw [wp_bind]
    have hnodup := ((wp_of_ok hloop).1 (evolveColumns_sublist batch.columns s₁)).2.nodup hdistinct
    refine wp_mono (rewriteColumns_spec be hnodup _ s₂) ?_ (fun _ _ h => h.1)
    rintro b s' ⟨-, hall, -⟩
    have hmem := hall _ hlisted
    rw [Batch.names_withoutColumns] at hmem
    exact absurd hgone (of_decide_eq_true (List.mem_filter.1 hmem).2)
  exact not_degrades_of_raises hraises

/-- A uuid column `a` and a column `b`, both new. -/
def withA : Batch ℕ ℕ := ⟨[7], [⟨"a", .of .uuid, some⟩, ⟨"b", .of .long, some⟩]⟩

/-- The alter of both columns loses a race, the add of `a` is refused, and before the add of `b`
    another writer adds `a` as text. -/
def addedAsText : World ℕ :=
  demoWorld ⟨demoColumns, [], []⟩ [answered, answered, answered,
    demoTurn [] (.refused demoConflict.error), demoTurn [] (.refused validationError),
    demoTurn [.alterTable ⟨demoColumns ++ [⟨"a", 3, .string⟩], [], []⟩] .answered]

/-- A sink that has just found its table there. -/
def beforeText : St ℕ := final (ensureTable demoCfg withA) (St.new addedAsText)

end Millpond.Hoglake
