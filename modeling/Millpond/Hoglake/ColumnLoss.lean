import Millpond.Hoglake.ColumnFates
import Millpond.Hoglake.Counters
import Millpond.Hoglake.Layout

set_option autoImplicit false

/-! # Columns that are lost

What becomes of the columns of a batch between `write` and the files the server accepts. Evolution
counts every column it gives up; the select of a prepare narrows the batch to a later read of the
table and counts nothing. -/

namespace Millpond.Hoglake

open Prog Counting

variable {ρ V : Type} {cfg : SinkConfig} {be : Backend ρ V}

/-! ## What evolution counts -/

theorem counts_addColumn (name : String) (type : HogType) :
    Counts (addColumnCounted name type : CountedM ρ Bool) fun s k =>
      AddRefused name type s ∧ k = .schema name := by
  intro s counts
  unfold addColumnCounted
  rw [wp_bind, wp_uncounted]
  refine wp_mono (addColumn_cases name type s) (fun live s₁ hlive => ?_) (fun _ _ _ => trivial)
  cases live with
  | true =>
      have hnot : ¬ AddRefused name type s := fun h => absurd (hlive.2 h) (by simp)
      intro k
      simp [hnot]
  | false =>
      intro k
      show k ∈ [Tally.schema name] ++ counts ↔ k ∈ counts ∨ AddRefused name type s ∧ k = .schema name
      rw [List.mem_append, List.mem_singleton, or_comm, and_iff_right (hlive.1 rfl)]

theorem isLoop_addEachCounted : IsLoop
    (fun field => (addColumnCounted field.1 field.2 : CountedM ρ Bool))
    (fun field live failed => if live then failed else field.1 :: failed) [] addEachCounted :=
  ⟨rfl, fun _ _ => rfl⟩

theorem counts_addEach (columns : List (String × HogType)) :
    Counts (addEachCounted columns : CountedM ρ (List String)) fun s k =>
      ∃ field s', Comes addTurn columns s field s' ∧ AddRefused field.1 field.2 s' ∧
        k = .schema field.1 :=
  counts_of_isLoop isLoop_addEachCounted (fun field => erases_addColumn field.1 field.2)
    (fun field => counts_addColumn field.1 field.2) columns

theorem addColumnsCounted_eq (fields : List (BatchColumn ρ V)) :
    (addColumnsCounted fields : CountedM ρ (List String)) =
      count ((unmapped fields).map .schema) >>= fun _ =>
        if (addable fields).isEmpty then pure (unmapped fields)
        else uncounted (addBatched (addable fields)) >>= fun batched =>
          if batched then pure (unmapped fields)
          else addEachCounted (addable fields) >>= fun failed => pure (unmapped fields ++ failed) := rfl

/-- What is not added is counted, and nothing else. -/
theorem counts_addColumns (batch : Batch ρ V) (s : St ρ) (counts : List Tally) :
    wp (addColumnsCounted (absentColumns batch s))
      (fun added p => addColumns (absentColumns batch s) s = .ok added p.1 ∧
        ∀ k, k ∈ p.2 ↔ k ∈ counts ∨ ∃ name, k = .schema name ∧ NotAdded batch s name)
      (fun _ _ => True) (s, counts) := by
  have hnotAdded : ∀ k, (∃ name, k = Tally.schema name ∧ NotAdded batch s name) ↔
      k ∈ (unmapped (absentColumns batch s)).map Tally.schema ∨
        ∃ field s', AddsAlone batch s field s' ∧ AddRefused field.1 field.2 s' ∧
          k = .schema field.1 := by
    intro k
    constructor
    · rintro ⟨name, rfl, ⟨habsent, htype⟩ | ⟨hadds, hrefused⟩⟩
      · exact Or.inl (List.mem_map_of_mem (mem_unmapped.2 ⟨_, habsent, htype, rfl⟩))
      · exact Or.inr ⟨_, _, hadds, hrefused, rfl⟩
    · rintro (hmem | ⟨field, s', hadds, hrefused, rfl⟩)
      · obtain ⟨name, hname, rfl⟩ := List.mem_map.1 hmem
        obtain ⟨c, habsent, htype, rfl⟩ := mem_unmapped.1 hname
        exact ⟨_, rfl, .unmapped habsent htype⟩
      · exact ⟨_, rfl, .refused hadds hrefused⟩
  refine (erases_addColumns (absentColumns batch s)).wp_run ?_
  simp only [hnotAdded]
  -- where no column is added alone, only the unmapped ones are counted
  have hnever : (∀ field s', ¬ AddsAlone batch s field s') → ∀ k,
      k ∈ (unmapped (absentColumns batch s)).map Tally.schema ++ counts ↔ k ∈ counts ∨
        k ∈ (unmapped (absentColumns batch s)).map Tally.schema ∨
          ∃ field s', AddsAlone batch s field s' ∧ AddRefused field.1 field.2 s' ∧
            k = .schema field.1 := by
    intro hnever k
    have hnone : ¬ ∃ field s', AddsAlone batch s field s' ∧ AddRefused field.1 field.2 s' ∧
        k = .schema field.1 := by
      rintro ⟨field, s', hadds, -⟩
      exact hnever field s' hadds
    rw [List.mem_append, or_comm, or_iff_left hnone]
  rw [addColumnsCounted_eq, wp_bind, wp_count]
  dsimp only
  split
  · next hempty =>
      exact hnever fun _ _ => not_addsAlone_of_isEmpty hempty
  · rw [wp_bind, wp_uncounted]
    refine wp_mono (wp_run _ s) (fun batched s₁ hbatched => ?_) (fun _ _ _ => trivial)
    cases batched with
    | true => exact hnever fun _ _ => not_addsAlone_of_batched hbatched
    | false =>
        rw [if_neg (by simp), wp_bind]
        refine wp_mono (counts_addEach _ s₁ _) (fun failed p hcounts k => ?_) (fun _ _ _ => trivial)
        rw [hcounts, List.mem_append, or_comm (b := k ∈ counts), or_assoc]
        simp only [addsAlone_iff hbatched]

theorem counts_promoteColumn (name : String) (toType : HogType) :
    Counts (promoteColumnCounted name toType : CountedM ρ PUnit) fun s k =>
      PromotionRefused name toType s ∧ k = .schema name := by
  intro s counts
  have hcounted : ∀ {c : Prop}, c → ∀ k, k ∈ [Tally.schema name] ++ counts ↔
      k ∈ counts ∨ c ∧ k = .schema name := by
    intro c hc k
    rw [List.mem_append, List.mem_singleton, or_comm, and_iff_right hc]
  unfold promoteColumnCounted tryCounted
  rw [wp_tryCatch, wp_uncounted]
  refine wp_mono (wp_run _ s) (fun _ s₁ hrun k => ?_) (fun r s₁ hrun => ?_)
  · have hnot : ¬ PromotionRefused name toType s := by
      rintro ⟨r, s₂, e, hrefused, -⟩
      rw [bind_apply_error hrefused] at hrun
      cases hrun
    simp [hnot]
  · have halter : tableAlter [.promoteColumn name toType] s = .error r s₁ := by
      cases halter : tableAlter [.promoteColumn name toType] s with
      | error r' s' =>
          rw [bind_apply_error halter] at hrun
          obtain ⟨rfl, rfl⟩ := EStateM.Result.error.inj hrun
          rfl
      | ok info s' =>
          rw [bind_apply_ok halter] at hrun
          cases hrun
    cases he : r.error with
    | hoglake e =>
        dsimp only
        cases hconflict : e.is .commitConflict with
        | false =>
            refine hcounted ⟨r, s₁, e, halter, he, fun h => ?_⟩
            rw [hconflict] at h
            cases h
        | true =>
            -- lost to another writer, who may have made the same promotion
            rw [if_pos rfl, wp_bind, wp_uncounted, wp_bind]
            refine wp_mono (wp_run _ s₁) (fun info s₂ hread => ?_) (fun _ _ _ => trivial)
            show ∀ k, k ∈ (if (liveColumn name (s₂.adopted info).sink).any (·.type = toType) then []
              else [Tally.schema name]) ++ counts ↔ _
            have hlive : liveColumn name (s₂.adopted info).sink =
                info.shape.columns.find? (·.name = name) := rfl
            rw [hlive]
            split
            · next hpromoted =>
                have hnot : ¬ PromotionRefused name toType s := by
                  rintro ⟨r', s', e', halter', he', hthen⟩
                  obtain ⟨rfl, rfl⟩ := refusal_unique halter he halter' he'
                  obtain ⟨info', s₃, hread', hall⟩ := hthen hconflict
                  obtain ⟨rfl, -⟩ := EStateM.Result.ok.inj (hread.symm.trans hread')
                  obtain ⟨live, hfind, htype⟩ := (Option.any_eq_true _ _).1 hpromoted
                  exact hall live hfind (of_decide_eq_true htype)
                simp [hnot]
            · next hstays =>
                refine hcounted ⟨r, s₁, e, halter, he, fun _ => ⟨info, s₂, hread, fun live hfind => ?_⟩⟩
                exact fun htype => hstays ((Option.any_eq_true _ _).2 ⟨live, hfind, decide_eq_true htype⟩)
    | _ => trivial

theorem counts_evolveColumn (c : BatchColumn ρ V) :
    Counts (evolveColumnCounted c) fun s k => k = .schema c.name ∧
      (c.type.coltype = none ∧ (liveColumn c.name s.sink).isSome = true ∨
        ∃ toType, Promotes c s toType ∧ PromotionRefused c.name toType s) := by
  intro s counts
  unfold evolveColumnCounted
  rw [wp_bind, wp_get]
  dsimp only
  cases hlive : liveColumn c.name s.sink with
  | none =>
      have hnot : ∀ toType, ¬ Promotes c s toType := by
        rintro toType ⟨live, want, hlive', -⟩
        cases hlive.symm.trans hlive'
      simp [hnot]
  | some live =>
      cases hwant : c.type.coltype with
      | none =>
          dsimp only
          rw [wp_bind, wp_count]
          intro k
          show k ∈ [Tally.schema c.name] ++ counts ↔ _
          rw [List.mem_append, List.mem_singleton, or_comm]
          simp
      | some want =>
          have hpromotes : ∀ toType, Promotes c s toType ↔
              live.type ≠ want ∧ promotions.lookup (live.type, want) = some toType := by
            intro toType
            constructor
            · rintro ⟨live', want', hlive', hwant', h⟩
              obtain rfl := Option.some.inj (hlive.symm.trans hlive')
              obtain rfl := Option.some.inj (hwant.symm.trans hwant')
              exact h
            · exact fun h => ⟨live, want, hlive, hwant, h⟩
          dsimp only
          split
          · next hsame => simp [hpromotes, hsame]
          · next hdiffers =>
              cases hpromoted : promotions.lookup (live.type, want) with
              | none => simp [hpromotes, hpromoted]
              | some promoted =>
                  dsimp only
                  rw [wp_bind]
                  refine wp_mono (counts_promoteColumn c.name promoted s counts) (fun _ p h k => ?_)
                    (fun _ _ h => h)
                  rw [h k]
                  simp [hpromotes, hpromoted, hdiffers, and_comm]

theorem isLoop_evolveColumnsCounted : IsLoop (evolveColumnCounted (ρ := ρ) (V := V))
    (fun _ turn others => (turn.1 ++ others.1, turn.2 ++ others.2)) ([], []) evolveColumnsCounted :=
  ⟨rfl, fun _ _ => rfl⟩

theorem counts_evolveColumns (columns : List (BatchColumn ρ V)) :
    Counts (evolveColumnsCounted columns) fun s k => ∃ c s', Comes evolveColumn columns s c s' ∧
      k = .schema c.name ∧ (c.type.coltype = none ∧ (liveColumn c.name s'.sink).isSome = true ∨
        ∃ toType, Promotes c s' toType ∧ PromotionRefused c.name toType s') :=
  counts_of_isLoop isLoop_evolveColumnsCounted erases_evolveColumn counts_evolveColumn columns

theorem counts_rewriteColumns (be : Backend ρ V) (rewrites : List (String × HogType))
    (batch : Batch ρ V) : Counts (rewriteColumnsCounted be rewrites batch) fun _ k =>
      ∃ w ∈ rewrites, k = .schema w.1 := by
  induction rewrites generalizing batch with
  | nil => exact (counts_pure batch).congr fun _ _ => by simp
  | cons w rest ih =>
      unfold rewriteColumnsCounted
      cases rewriteColumn be w.1 w.2 batch with
      | none => exact counts_throw _ _
      | some batch' => exact ((ih batch').count_bind _).congr fun _ _ => by simp

/-- **What evolution counts** is the schema errors, each for its column. -/
theorem counts_evolveAndAlign (be : Backend ρ V) (batch : Batch ρ V) (s : St ρ)
    (counts : List Tally) :
    wp (evolveAndAlignCounted be batch)
      (fun evolved p => evolveAndAlign be batch s = .ok evolved p.1 ∧
        ∀ k, k ∈ p.2 ↔ k ∈ counts ∨ ∃ name, k = .schema name ∧ SchemaError batch s name)
      (fun _ _ => True) (s, counts) := by
  refine (erases_evolveAndAlign be batch).wp_run ?_
  unfold evolveAndAlignCounted
  rw [wp_bind, wp_get]
  dsimp only
  rw [wp_bind]
  refine wp_mono (counts_addColumns batch s counts) ?_ (fun _ _ _ => trivial)
  rintro added ⟨s₁, counts₁⟩ ⟨hadd, hcounts₁⟩
  rw [wp_bind]
  refine wp_mono ((erases_evolveColumns batch.columns).wp_run
    (counts_evolveColumns batch.columns s₁ counts₁)) ?_ (fun _ _ _ => trivial)
  rintro ⟨failed, rewrites⟩ ⟨s₂, counts₂⟩ ⟨hloop, hcounts₂⟩
  dsimp only
  cases batch.dropColumns (added ++ failed) with
  | none => trivial
  | some dropped =>
      dsimp only
      rw [wp_bind]
      refine wp_mono (counts_rewriteColumns be rewrites dropped s₂ counts₂) ?_ (fun _ _ _ => trivial)
      rintro b ⟨s₃, counts₃⟩ hcounts₃
      simp only [wp_bind, wp_get, wp_pure]
      intro k
      rw [hcounts₃, hcounts₂, hcounts₁, or_assoc, or_assoc]
      refine or_congr Iff.rfl ?_
      constructor
      -- the three counters of the pass are the four kinds of schema errors
      · rintro (⟨name, rfl, hname⟩ | ⟨c, s', hcomes, rfl, hwhy⟩ | ⟨w, hw, rfl⟩)
        · exact ⟨name, rfl, .notAdded hname⟩
        · have hcomes' := (loopsAt_iff hadd).2 hcomes
          refine ⟨c.name, rfl, ?_⟩
          rcases hwhy with ⟨htype, hlive⟩ | ⟨toType, hpromotes, hrefused⟩
          · exact .unmapped ⟨c, s', hcomes', rfl, htype, hlive⟩
          · exact .promotion hcomes' hpromotes hrefused
        · obtain ⟨c, s', hcomes, hname, hrewrites⟩ := (evolveColumns_rewrites hadd hloop w).1 hw
          exact ⟨w.1, rfl, hname ▸ .rewrite hcomes hrewrites⟩
      · rintro ⟨name, rfl, hname⟩
        cases hname with
        | notAdded h => exact Or.inl ⟨name, rfl, h⟩
        | unmapped h =>
            obtain ⟨c, s', hcomes, rfl, htype, hlive⟩ := h
            exact Or.inr (Or.inl ⟨c, s', (loopsAt_iff hadd).1 hcomes, rfl, Or.inl ⟨htype, hlive⟩⟩)
        | promotion hcomes hpromotes hrefused =>
            exact Or.inr (Or.inl ⟨_, _, (loopsAt_iff hadd).1 hcomes, rfl,
              Or.inr ⟨_, hpromotes, hrefused⟩⟩)
        | rewrite hcomes hrewrites =>
            exact Or.inr (Or.inr ⟨(_, _),
              (evolveColumns_rewrites hadd hloop _).2 ⟨_, _, hcomes, rfl, hrewrites⟩, rfl⟩)

/-! ## What the files of a payload hold -/

/-- These tables are in the store, one for each registered file. -/
def Uploaded (registered : List DataFile) (files : List (PartitionValues × Batch ρ V))
    (w : World ρ) : Prop :=
  ∃ base, registered = files.zipIdx.map (fun g => ⟨.own (base + g.2), g.1.2.numRows, g.1.1⟩) ∧
    ∀ g ∈ files.zipIdx, (.own (base + g.2), g.1.2.rows) ∈ w.objects

/-- What a prepare made of a batch: its tables are the groups of the batch aligned to the columns of
    the read that the request carries. -/
structure Contents (be : Backend ρ V) (batch : Batch ρ V) (payload : Payload) (s : St ρ)
    (aligned : Batch ρ V) (files : List (PartitionValues × Batch ρ V)) (read : TableInfo) : Prop where
  aligned_eq : ∃ columns filled, Fills batch filled ∧ align be columns filled = some aligned
  groups : ∃ shape, partitionGroups be shape aligned = some files
  columns : columnsMatch aligned read.shape = true
  cache : ∃ t, s.world.handle.cache = some (read, t)
  files : Uploaded payload.files files s.world

/-- The read a prepare is based on is in the client's cache afterwards. -/
theorem preparedRead_cache (retention : Option ℚ) (s : St ρ) :
    wp (preparedRead retention)
      (fun read s' => ∃ t, s'.world.handle.cache = some (read, t)) (fun _ _ => True) s := by
  have hread : wp (tableRead : M ρ TableInfo)
      (fun read s' => ∃ t, s'.world.handle.cache = some (read, t)) (fun _ _ => True) s := by
    unfold tableRead
    simp only [wp_bind, wp_seedHandle, wp_pure]
    exact wp_mono (wp_true _ s) (fun read t _ => ⟨_, rfl⟩) (fun _ _ h => h)
  unfold preparedRead
  simp only [wp_bind, wp_get]
  cases hcache : s.world.handle.cache with
  | none => exact hread
  | some seeded =>
      dsimp only
      split
      · exact ⟨seeded.2, hcache⟩
      · exact hread

theorem uploadGroups_files (groups : List (PartitionValues × Batch ρ V)) (w : World ρ) :
    (uploadGroups (fun _ => true) groups w).1 =
      groups.zipIdx.map fun g => ⟨.own (w.nextUri + g.2), g.1.2.numRows, g.1.1⟩ := by
  simp [uploadGroups]

theorem uploadGroups_objects (groups : List (PartitionValues × Batch ρ V)) (w : World ρ) :
    ∀ g ∈ groups.zipIdx,
      (.own (w.nextUri + g.2), g.1.2.rows) ∈ (uploadGroups (fun _ => true) groups w).2.objects := by
  intro g hg
  refine List.mem_append_right _ (List.mem_map.2 ⟨g, ?_, rfl⟩)
  exact List.mem_filter.2 ⟨hg, rfl⟩

theorem uploadFanout_contents (groups : List (PartitionValues × Batch ρ V)) (s : St ρ) :
    wp (uploadFanout groups)
      (fun files s' => s'.world.handle = s.world.handle ∧ Uploaded files groups s'.world)
      (fun _ _ => True) s := by
  unfold uploadFanout
  simp only [wp_bind, wp_takeTurn, wp_get]
  cases s.turn.uploads with
  | all => exact ⟨rfl, _, uploadGroups_files groups _, uploadGroups_objects groups _⟩
  | failing ends error => trivial

theorem columnsMatch_of_refusedBeforeUpload {expected : Option Uuid} {data : Batch ρ V}
    {groups : List (PartitionValues × Batch ρ V)} {info : TableInfo}
    (h : refusedBeforeUpload expected data groups info = none) :
    columnsMatch data info.shape = true := by
  unfold refusedBeforeUpload at h
  split at h
  · exact absurd h (by simp)
  · split at h
    · exact absurd h (by simp)
    · next hmatch => simpa using hmatch

theorem prepareAppendTables_contents (retention : Option ℚ) (expected : Option Uuid)
    (data : Batch ρ V) (groups : List (PartitionValues × Batch ρ V)) (s : St ρ) :
    wp (prepareAppendTables retention expected data groups)
      (fun result s' => columnsMatch data result.2.shape = true ∧
        (∃ t, s'.world.handle.cache = some (result.2, t)) ∧ Uploaded result.1 groups s'.world)
      (fun _ _ => True) s := by
  unfold prepareAppendTables
  simp only [wp_bind, wp_passLocalWork]
  refine wp_mono (preparedRead_cache retention _) (fun read s₁ hcache => ?_) (fun _ _ h => h)
  cases hrefused : refusedBeforeUpload expected data groups read with
  | some e => trivial
  | none =>
      simp only [wp_bind, wp_pure]
      refine wp_mono (uploadFanout_contents groups s₁) (fun files s₂ h => ?_) (fun _ _ h => h)
      exact ⟨columnsMatch_of_refusedBeforeUpload hrefused, h.1 ▸ hcache, h.2⟩

/-- The arm around the uploads re-raises. -/
theorem wp_uploadsFailed {α : Type} (info : TableInfo) (r : Raised) {Q : α → St ρ → Prop} (s : St ρ) :
    wp (uploadsFailed info r : M ρ α) Q (fun _ _ => True) s := by
  unfold uploadsFailed
  rw [wp_bind]
  refine wp_mono (wp_true _ s) (fun _ s₁ _ => ?_) (fun _ _ h => h)
  cases r.error with
  | killed => trivial
  | _ =>
      simp only [wp_bind, wp_countOrphans, wp_throw]

theorem wp_noteUploaded (info : TableInfo) (uris : List Uri) {Q : PUnit → St ρ → Prop}
    {E : Raised → St ρ → Prop} {s : St ρ} (h : ∀ log, Q ⟨⟩ { s with log := log }) :
    wp (noteUploaded info uris) Q E s := by
  unfold noteUploaded
  split
  · exact h s.log
  · exact h _

theorem prepare_contents (cfg : SinkConfig) (be : Backend ρ V) (batch : Batch ρ V) (key : Key)
    (facts : FlushFacts) (s : St ρ) :
    wp (prepare cfg be batch key facts)
      (fun payload s' => ∃ aligned files read, Contents be batch payload s' aligned files read)
      (fun _ _ => True) s := by
  unfold prepare
  rw [wp_bind]
  refine wp_mono (wp_true _ s) (fun info s₁ _ => ?_) (fun _ _ h => h)
  simp only [wp_bind, wp_get]
  cases halign : align be info.shape.columns (nullFillMissing s₁.sink.liveColumns batch) with
  | none => trivial
  | some aligned =>
      dsimp only
      cases hgroups : partitionGroups be info.shape aligned with
      | none => trivial
      | some groups =>
          simp only [wp_bind, wp_tryCatch]
          refine wp_mono (prepareAppendTables_contents cfg.retention s₁.sink.tableUuid aligned
            groups s₁) (fun result s₂ h => ?_) (fun r s₂ _ => wp_uploadsFailed info r s₂)
          obtain ⟨files, read⟩ := result
          obtain ⟨hmatch, hcache, huploaded⟩ := h
          refine wp_noteUploaded info _ fun log => ?_
          exact ⟨aligned, groups, read, ⟨info.shape.columns, _, fills_nullFillMissing _ batch, halign⟩,
            ⟨info.shape, hgroups⟩, hmatch, hcache, huploaded⟩

theorem Contents.of_fills {batch batch' : Batch ρ V} {payload : Payload} {s : St ρ}
    {aligned : Batch ρ V} {files : List (PartitionValues × Batch ρ V)} {read : TableInfo}
    (h : Contents be batch' payload s aligned files read) (hfills : Fills batch batch') :
    Contents be batch payload s aligned files read := by
  obtain ⟨columns, filled, hfilled, halign⟩ := h.aligned_eq
  exact ⟨⟨columns, filled, hfills.trans hfilled, halign⟩, h.groups, h.columns, h.cache, h.files⟩

theorem prepareHealing_contents (cfg : SinkConfig) (be : Backend ρ V) (batch : Batch ρ V) (key : Key)
    (facts : FlushFacts) (s : St ρ) :
    wp (prepareHealing cfg be batch key facts)
      (fun payload s' => ∃ aligned files read, Contents be batch payload s' aligned files read)
      (fun _ _ => True) s := by
  unfold prepareHealing
  rw [wp_tryHoglake]
  refine wp_mono (prepare_contents cfg be batch key facts s) (fun _ _ h => h) (fun r s₁ _ => ?_)
  cases r.error with
  | hoglake e =>
      dsimp only
      split
      · rw [wp_bind]
        refine wp_mono (wp_true _ s₁) (fun info s₂ _ => ?_) (fun _ _ h => h)
        rw [wp_bind]
        refine wp_mono (wp_true _ s₂) (fun _ s₃ _ => ?_) (fun _ _ h => h)
        simp only [wp_bind, wp_get]
        refine wp_mono (prepare_contents cfg be _ key facts s₃) (fun payload s₄ h => ?_)
          (fun _ _ h => h)
        obtain ⟨aligned, files, read, hcontents⟩ := h
        exact ⟨aligned, files, read, hcontents.of_fills (fills_nullFillMissing _ batch)⟩
      · trivial
  | _ => trivial

/-! ## Values -/

variable (be) in
/-- `b` is the value `a` cast to the live type. -/
def IsCast (type : ArrowType) (live : HogType) (a b : Option V) : Prop :=
  (∀ v, a = some v → (be.cast type live v).isSome = true) ∧ b = a.bind (be.cast type live)

variable (be) in
/-- The table has the values of the column under its name, cast to the live type, or, where the live
    type is the other uuid shape, rewritten to it. -/
def Carries (c : BatchColumn ρ V) (data : Batch ρ V) : Prop :=
  ∃ d ∈ data.columns, ∃ live, d.name = c.name ∧ d.type = .of live ∧
    ((∀ row ∈ data.rows, IsCast be c.type live (c.cell row) (d.cell row)) ∨
      (c.type = .of .uuid ∧ live = .string ∧ ∀ row ∈ data.rows,
        IsCast be (.of .string) live ((c.cell row).map be.uuidText) (d.cell row)) ∨
      (c.type = .of .string ∧ live = .uuid ∧ ∀ row ∈ data.rows,
        IsCast be (.of .uuid) live ((c.cell row).bind be.uuidBytes) (d.cell row)))

variable (be) in
/-- Nulls of the live type say what the column says in these rows. -/
def Blank (c : BatchColumn ρ V) (rows : List ρ) (live : HogType) : Prop :=
  (∀ row ∈ rows, c.cell row = none) ∨
    c.type = .of .string ∧ live = .uuid ∧ ∀ row ∈ rows, (c.cell row).bind be.uuidBytes = none

theorem castColumn_spec {batch : Batch ρ V} {live : Column} {d : BatchColumn ρ V}
    (h : castColumn be batch live = some d) :
    d.name = live.name ∧ d.type = .of live.type ∧ ∃ c, batch.column? live.name = some c ∧
      ∀ row ∈ batch.rows, IsCast be c.type live.type (c.cell row) (d.cell row) := by
  unfold castColumn at h
  split at h
  · exact absurd h (by simp)
  · next c hc =>
      split at h
      · next hcasts =>
          obtain rfl := Option.some.inj h
          refine ⟨rfl, rfl, c, hc, fun row hrow => ⟨fun v hv => ?_, rfl⟩⟩
          have hrow' := List.all_eq_true.1 hcasts row hrow
          rw [hv] at hrow'
          exact hrow'
      · exact absurd h (by simp)

/-- A column of the select is a column of the batch, cast. -/
theorem cast_of_align {columns : List Column} {filled aligned : Batch ρ V}
    (h : align be columns filled = some aligned) {d : BatchColumn ρ V} (hd : d ∈ aligned.columns) :
    ∃ live c, d.type = .of live ∧ filled.column? d.name = some c ∧
      ∀ row ∈ aligned.rows, IsCast be c.type live (c.cell row) (d.cell row) := by
  unfold align at h
  obtain ⟨cast, hcast, rfl⟩ := Option.map_eq_some_iff.1 h
  obtain ⟨live, -, hlive⟩ := exists_of_mem_mapM hcast hd
  obtain ⟨hname, htype, c, hc, hvalues⟩ := castColumn_spec hlive
  exact ⟨live.type, c, htype, hname ▸ hc, hvalues⟩

/-- A column that survives the select is cast. -/
theorem carries_of_align {columns : List Column} {filled aligned : Batch ρ V}
    (h : align be columns filled = some aligned) {name : String} {c : BatchColumn ρ V}
    (hc : filled.column? name = some c) (hname : name ∈ aligned.names) : Carries be c aligned := by
  obtain ⟨d, hd, rfl⟩ := List.mem_map.1 hname
  obtain ⟨live, c', htype, hc', hvalues⟩ := cast_of_align h hd
  obtain rfl := Option.some.inj (hc.symm.trans hc')
  exact ⟨d, hd, live, (name_of_column? hc).symm, htype, Or.inl hvalues⟩

/-- A column that is null stays null. -/
theorem null_of_align {columns : List Column} {filled aligned : Batch ρ V}
    (h : align be columns filled = some aligned) {d : BatchColumn ρ V} (hd : d ∈ aligned.columns)
    (hnull : ∀ c, filled.column? d.name = some c → ∀ row, c.cell row = none) :
    ∀ row ∈ aligned.rows, d.cell row = none := by
  intro row hrow
  obtain ⟨live, c, -, hc, hvalues⟩ := cast_of_align h hd
  rw [(hvalues row hrow).2, hnull c hc row, Option.bind_none]

/-- A group is some of the rows, with every column. -/
theorem partitionGroups_parts {shape : Shape} {data : Batch ρ V}
    {groups : List (PartitionValues × Batch ρ V)} (h : partitionGroups be shape data = some groups) :
    ∀ g ∈ groups, g.2.columns = data.columns ∧ g.2.rows ⊆ data.rows := by
  intro g hg
  unfold partitionGroups at h
  split at h
  · obtain rfl := Option.some.inj h
    rw [List.mem_singleton.1 hg]
    exact ⟨rfl, List.Subset.refl _⟩
  · obtain ⟨sources, -, rfl⟩ := Option.map_eq_some_iff.1 h
    obtain ⟨values, -, rfl⟩ := List.mem_map.1 hg
    exact ⟨rfl, List.filter_sublist.subset⟩

theorem Carries.part {c : BatchColumn ρ V} {data part : Batch ρ V} (h : Carries be c data)
    (hcolumns : part.columns = data.columns) (hrows : part.rows ⊆ data.rows) :
    Carries be c part := by
  obtain ⟨d, hd, live, hname, htype, hvalues⟩ := h
  refine ⟨d, hcolumns ▸ hd, live, hname, htype, ?_⟩
  rcases hvalues with hplain | ⟨huuid, hlive, htext⟩ | ⟨htext, hlive, huuid⟩
  · exact Or.inl fun row hrow => hplain row (hrows hrow)
  · exact Or.inr (Or.inl ⟨huuid, hlive, fun row hrow => htext row (hrows hrow)⟩)
  · exact Or.inr (Or.inr ⟨htext, hlive, fun row hrow => huuid row (hrows hrow)⟩)

/-- A cast never makes a null of a value. -/
theorem IsCast.eq_none {type : ArrowType} {live : HogType} {a : Option V}
    (h : IsCast be type live a none) : a = none := by
  by_contra hsome
  obtain ⟨v, rfl⟩ := Option.ne_none_iff_exists'.1 hsome
  have hcast := h.1 v rfl
  rw [← Option.bind_some (f := be.cast type live), ← h.2] at hcast
  cases hcast

theorem isCast_none (type : ArrowType) (live : HogType) : IsCast be type live none none :=
  ⟨fun _ hv => absurd hv (by simp), rfl⟩

/-- Files in which the column is null carry it exactly if nulls say the same. -/
theorem carries_null_iff {c : BatchColumn ρ V} {rows : List ρ}
    {files : List (PartitionValues × Batch ρ V)} {columns : List (BatchColumn ρ V)}
    (hne : files ≠ []) (hcover : ∀ row ∈ rows, ∃ g ∈ files, row ∈ g.2.rows)
    (hparts : ∀ g ∈ files, g.2.columns = columns ∧ g.2.rows ⊆ rows)
    (hnull : ∀ d ∈ columns, d.name = c.name → ∀ row ∈ rows, d.cell row = none) :
    (∀ g ∈ files, Carries be c g.2) ↔
      ∃ d ∈ columns, ∃ live, d.name = c.name ∧ d.type = .of live ∧ Blank be c rows live := by
  constructor
  · intro hcarries
    -- a text column in a uuid table carries nulls also where no text is a uuid
    by_cases huuid : ∃ d ∈ columns, d.name = c.name ∧ d.type = .of .uuid ∧ c.type = .of .string
    · obtain ⟨d, hd, hname, htype, htext⟩ := huuid
      refine ⟨d, hd, .uuid, hname, htype, Or.inr ⟨htext, rfl, fun row hrow => ?_⟩⟩
      obtain ⟨g, hg, hin⟩ := hcover row hrow
      obtain ⟨e, he, live, hname', -, hvalues⟩ := hcarries g hg
      have hnull' := hnull e ((hparts g hg).1 ▸ he) hname' row hrow
      rcases hvalues with hplain | ⟨hother, -⟩ | ⟨-, -, hbytes⟩
      · have hcell : c.cell row = none := (hnull' ▸ hplain row hin : IsCast be _ _ _ none).eq_none
        rw [hcell, Option.bind_none]
      · cases htext.symm.trans hother
      · exact (hnull' ▸ hbytes row hin : IsCast be _ _ _ none).eq_none
    · have hall : ∀ row ∈ rows, c.cell row = none := by
        intro row hrow
        obtain ⟨g, hg, hin⟩ := hcover row hrow
        obtain ⟨e, he, live, hname', htype, hvalues⟩ := hcarries g hg
        have he' := (hparts g hg).1 ▸ he
        have hnull' := hnull e he' hname' row hrow
        rcases hvalues with hplain | ⟨-, -, htext⟩ | ⟨htext, rfl, -⟩
        · exact (hnull' ▸ hplain row hin : IsCast be _ _ _ none).eq_none
        · exact Option.map_eq_none_iff.1 (hnull' ▸ htext row hin : IsCast be _ _ _ none).eq_none
        · exact absurd ⟨e, he', hname', htype, htext⟩ huuid
      obtain ⟨g, hg⟩ := List.exists_mem_of_ne_nil _ hne
      obtain ⟨d, hd, live, hname, htype, -⟩ := hcarries g hg
      exact ⟨d, (hparts g hg).1 ▸ hd, live, hname, htype, Or.inl hall⟩
  · rintro ⟨d, hd, live, hname, htype, hblank⟩ g hg
    have hrows := (hparts g hg).2
    refine ⟨d, (hparts g hg).1.symm ▸ hd, live, hname, htype, ?_⟩
    rcases hblank with hall | ⟨htext, hlive, hbytes⟩
    · refine Or.inl fun row hrow => ?_
      rw [hnull d hd hname row (hrows hrow), hall row (hrows hrow)]
      exact isCast_none c.type live
    · refine Or.inr (Or.inr ⟨htext, hlive, fun row hrow => ?_⟩)
      rw [hnull d hd hname row (hrows hrow), hbytes row (hrows hrow)]
      exact isCast_none (.of .uuid) live

/-! ## What a flush accounts for -/

/-- The column was counted during the flush. -/
def CountedIn (counts : List Tally) (column : String) : Prop :=
  .unsafeFieldName column ∈ counts ∨ .schema column ∈ counts

instance (counts : List Tally) (column : String) : Decidable (CountedIn counts column) :=
  inferInstanceAs (Decidable (_ ∨ _))

variable (be) in
/-- Every column of the batch is in the files with its values, or was counted. -/
def NoSilentLoss (batch : Batch ρ V) (files : List (PartitionValues × Batch ρ V))
    (counts : List Tally) : Prop :=
  ∀ name c, batch.column? name = some c →
    (∀ g ∈ files, Carries be c g.2) ∨ CountedIn counts name

variable (be) in
/-- The column gets into the files of a commit to a table of this shape: the table has it, and
    `drop_columns` did not take it out with another column, or nulls say the same. -/
def Reaches (stamped : Batch ρ V) (s₀ : St ρ) (rows : List ρ) (shape : Shape)
    (c : BatchColumn ρ V) : Prop :=
  (Spared stamped s₀ c.name ∧ c.name ∈ shape.columns.map (·.name)) ∨
    ∃ live ∈ shape.columns, live.name = c.name ∧ Blank be c rows live.type

variable (be) in
/-- Every column of the batch was counted before, has no writable name, is a schema error of the
    evolution that starts in `s₀`, or gets into the files. -/
def Accounted (batch stamped : Batch ρ V) (s₀ : St ρ) (counts : List Tally) (shape : Shape) : Prop :=
  ∀ name c, batch.column? name = some c → CountedIn counts name ∨ isWritable name = false ∨
    SchemaError stamped s₀ name ∨ Reaches be stamped s₀ batch.rows shape c

variable (cfg be) in
/-- `write` from the payload it gives up to `_evolve_and_align`. -/
def untilEvolution (flush : Flush ρ V) : M ρ (Batch ρ V) := do
  discardPrepared .superseded
  let now := (← get).world.net.now
  let stamped := stampInsertedAt be now (dropUnwritableColumns flush.batch)
  ensureTable cfg stamped
  let _ ← flushKey cfg (← get).sink.tableUuid flush.identity
  pure stamped

/-- A name and a type, as an Arrow schema has them. -/
def fieldOf (c : BatchColumn ρ V) : String × ArrowType := (c.name, c.type)

/-- A commit of the payload in a later server finds the columns the payload was built for. -/
def FindsColumns (payload : Payload) (server : Server) (fields : List (String × ArrowType)) : Prop :=
  ∀ later, server.Evolves later → ∀ key commit, later.ledger.lookup key = some commit →
    commit.request = payload →
      commit.shape.columns.map (fun c => (c.name, ArrowType.of c.type)) = fields

/-- What the sink holds for a flush whose evolution started in `s₀`: the files of the payload, all rows
    of the flush in them, what became of the columns, and the columns every commit of it finds. -/
structure Held (be : Backend ρ V) (flush : Flush ρ V) (stamped : Batch ρ V) (s₀ t : St ρ)
    (counts counts' : List Tally) (payload : Payload) (files : List (PartitionValues × Batch ρ V))
    (columns : List (BatchColumn ρ V)) : Prop where
  held : t.sink.prepared = some payload
  uploaded : Uploaded payload.files files t.world
  rows : ∀ row ∈ flush.batch.rows, ∃ g ∈ files, row ∈ g.2.rows
  parts : ∀ g ∈ files, g.2.columns = columns ∧ g.2.rows ⊆ flush.batch.rows
  finds : FindsColumns payload t.world.net.server (columns.map fieldOf)
  counted : ∀ name, CountedIn counts' name ↔ CountedIn counts name ∨
    (name ∈ flush.batch.names ∧ isWritable name = false) ∨ SchemaError stamped s₀ name
  spared : ∀ name c, flush.batch.column? name = some c → isWritable name = true →
    ¬ SchemaError stamped s₀ name → Spared stamped s₀ name → name ∈ columns.map (·.name) →
      ∀ g ∈ files, Carries be c g.2
  null : ∀ d ∈ columns, ¬ Spared stamped s₀ d.name → ∀ row ∈ flush.batch.rows, d.cell row = none

theorem column?_dropUnwritableColumns {batch : Batch ρ V} (hdistinct : batch.names.Nodup)
    {name : String} {c : BatchColumn ρ V} (hc : batch.column? name = some c)
    (hname : isWritable name = true) : (dropUnwritableColumns batch).column? name = some c := by
  have hsub : (dropUnwritableColumns batch).columns.Sublist batch.columns := List.filter_sublist
  have hmem : name ∈ (dropUnwritableColumns batch).names := by
    unfold dropUnwritableColumns
    rw [Batch.names_withoutColumns, List.mem_filter]
    exact ⟨column?_isSome.1 (by rw [hc]; rfl), by simp [hname]⟩
  rw [column?_of_sublist hdistinct hsub hmem, hc]

theorem column?_stamped {batch : Batch ρ V} (hdistinct : batch.names.Nodup) {now : ℚ}
    {name : String} {c : BatchColumn ρ V} (hc : batch.column? name = some c)
    (hname : isWritable name = true) :
    (stampInsertedAt be now (dropUnwritableColumns batch)).column? name = some c := by
  unfold stampInsertedAt
  rw [column?_appendColumn, column?_dropUnwritableColumns hdistinct hc hname, Option.some_or]

theorem stamped_nodup {batch : Batch ρ V} (hdistinct : batch.names.Nodup)
    (hreserved : insertedAt ∉ batch.names) (now : ℚ) :
    (stampInsertedAt be now (dropUnwritableColumns batch)).names.Nodup := by
  have hsub : (dropUnwritableColumns batch).names.Sublist batch.names := List.filter_sublist.map _
  exact nodup_appendColumn (hsub.nodup hdistinct) fun hmem => hreserved (hsub.subset hmem)

/-- A request that no receipt is for yet finds, whenever it is applied, the shape it was read at. -/
theorem findsColumns_of_honest {server : Server} {payload : Payload} {read : TableInfo}
    {data : Batch ρ V} (hfresh : ∀ key c, server.ledger.lookup key = some c → c.request ≠ payload)
    (hhonest : server.Honest read) (huuid : payload.expectedTableUuid = read.uuid)
    (hsnapshot : payload.readSnapshot = read.snapshot)
    (hmatch : columnsMatch data read.shape = true) :
    FindsColumns payload server (data.columns.map fieldOf) := by
  rintro later hlater key commit hcommit rfl
  rcases hlater.applied key commit hcommit with hold | haccepts
  · exact absurd rfl (hfresh key commit hold)
  · rw [haccepts.shape read hhonest huuid.symm hsnapshot.symm]
    exact (of_decide_eq_true hmatch).symm

/-- What the flush counted. -/
theorem countedIn_iff {batch stamped : Batch ρ V} {s₀ : St ρ} {counts counts' : List Tally}
    (h : ∀ k, k ∈ counts' ↔ k ∈ unwritableTallies batch ++ counts ∨
      ∃ name, k = .schema name ∧ SchemaError stamped s₀ name) (name : String) :
    CountedIn counts' name ↔ CountedIn counts name ∨
      (name ∈ batch.names ∧ isWritable name = false) ∨ SchemaError stamped s₀ name := by
  have hunsafe : Tally.unsafeFieldName name ∈ unwritableTallies batch ↔
      name ∈ batch.names ∧ isWritable name = false := by
    unfold unwritableTallies
    split
    · simp
    · simp
  have hschema : Tally.schema name ∉ unwritableTallies batch := by
    unfold unwritableTallies
    split
    · simp
    · simp
  unfold CountedIn
  rw [h, h, List.mem_append, List.mem_append, hunsafe]
  simp only [hschema, false_or, reduceCtorEq, Tally.schema.injEq, false_and, exists_false, or_false,
    exists_eq_left']
  tauto

/-- What is built from a batch whose evolution is known. -/
theorem Built.held {start : ℕ} {s s₁ s₀ : St ρ} {flush : Flush ρ V} {stamped evolved : Batch ρ V}
    {key : Key} {payload : Payload} {info read read' : TableInfo} {objects : List (Uri × List ρ)}
    {aligned : Batch ρ V} {files : List (PartitionValues × Batch ρ V)} {counts counts' : List Tally}
    (htraced : Traced start s) (hbuilt : Built cfg s evolved.rows key payload s₁ info read objects)
    (hcontents : Contents be evolved payload (s₁.built info objects payload) aligned files read')
    (hrows : evolved.rows = flush.batch.rows)
    (hcounted : ∀ name, CountedIn counts' name ↔ CountedIn counts name ∨
      (name ∈ flush.batch.names ∧ isWritable name = false) ∨ SchemaError stamped s₀ name)
    (hspared : ∀ name c, flush.batch.column? name = some c → isWritable name = true →
      ¬ SchemaError stamped s₀ name → Spared stamped s₀ name → evolved.column? name = some c)
    (hnull : ∀ name, ¬ Spared stamped s₀ name → ∀ c, evolved.column? name = some c →
      ∀ row, c.cell row = none) (sink : Sink) (hsink : sink.prepared = some payload) :
    Held be flush stamped s₀ { s₁.built info objects payload with sink := sink } counts counts'
      payload files aligned.columns := by
  have htraced₁ : Traced start s₁ :=
    hbuilt.standing.steps.invariant (fun _ _ hstep h => hstep.traced h) htraced
  obtain ⟨columns, filled, hfilled, halign⟩ := hcontents.aligned_eq
  obtain ⟨shape, hgroups⟩ := hcontents.groups
  -- the read of the files is the read of the request
  obtain ⟨t, hcache⟩ := hbuilt.ready.cache
  obtain ⟨t', hcache'⟩ := hcontents.cache
  have hcache₁ : s₁.world.handle.cache = some (read', t') := hcache'
  obtain rfl : read = read' := by
    rw [hcache] at hcache₁
    exact congrArg Prod.fst (Option.some.inj hcache₁)
  have hhonest := htraced₁.cache read t hcache
  have haligned : aligned.rows = flush.batch.rows := by
    rw [align_rows halign, hfilled.rows, hrows]
  refine ⟨hsink, hcontents.files, ?_, ?_, ?_, hcounted, ?_, ?_⟩
  · intro row hrow
    exact partitionGroups_covers hgroups row (haligned ▸ hrow)
  · exact fun g hg => haligned ▸ partitionGroups_parts hgroups g hg
  · refine findsColumns_of_honest (fun key c hc hsame => ?_) hhonest hbuilt.built.uuid
      hbuilt.built.snapshot hcontents.columns
    -- the names of its objects are new, so no request of this state is the payload
    refine htraced₁.fresh (Or.inl ⟨key, c, hc, hsame⟩) 0 ?_
    rw [hbuilt.built.uris]
    exact List.mem_map.2 ⟨0, List.mem_range.2 hbuilt.built.nonempty, rfl⟩
  · intro name c hc hwritable hnot hkept hname g hg
    obtain ⟨hsame, hsub⟩ := partitionGroups_parts hgroups g hg
    have hfill := hfilled.columns name c (hspared name c hc hwritable hnot hkept)
    exact (carries_of_align halign hfill hname).part hsame hsub
  · intro d hd hgone row hrow
    refine null_of_align halign hd (fun c hc => ?_) row (haligned ▸ hrow)
    cases hevolved : evolved.column? d.name with
    | none => exact hfilled.nulls d.name c hc (column?_eq_none.1 hevolved)
    | some c' =>
        obtain rfl := Option.some.inj (hc.symm.trans (hfilled.columns d.name c' hevolved))
        exact hnull d.name hgone c hevolved

theorem buildPayloadCounted_held {start : ℕ} {s s₁ : St ρ} (flush : Flush ρ V)
    (hdistinct : flush.batch.names.Nodup) (hreserved : insertedAt ∉ flush.batch.names)
    (hdiscard : discardPrepared .superseded s = .ok ⟨⟩ s₁) (hverdict : NoVerdict s₁)
    (hnone : s₁.sink.prepared = none) (hrows : flush.batch.rows ≠ []) (htraced : Traced start s₁)
    (counts : List Tally) :
    wp (buildPayloadCounted cfg be flush)
      (fun _ p => ∃ payload files columns stamped s₀,
        untilEvolution cfg be flush s = .ok stamped s₀ ∧
          Held be flush stamped s₀ p.1 counts p.2 payload files columns)
      (fun _ _ => True) (s₁, unwritableTallies flush.batch ++ counts) := by
  unfold buildPayloadCounted
  rw [wp_bind, wp_get]
  dsimp only
  generalize hstamped : stampInsertedAt be s₁.world.net.now (dropUnwritableColumns flush.batch)
    = stamped
  rw [wp_bind, wp_uncounted]
  refine wp_mono (wp_and (ensureTable_spec stamped hverdict) (wp_run _ s₁))
    (fun _ s₂ h => ?_) (fun _ _ _ => trivial)
  obtain ⟨hattached, hensure⟩ := h
  rw [wp_bind, wp_get]
  dsimp only
  rw [wp_bind, wp_uncounted]
  refine wp_mono (wp_and (flushKey_spec flush.identity s₂) (wp_run _ s₂)) (fun key s₃ h => ?_)
    (fun _ _ _ => trivial)
  obtain ⟨hkey, hkeyed⟩ := h
  have huntil : untilEvolution cfg be flush s = .ok stamped s₃ := by
    unfold untilEvolution
    rw [bind_apply_ok hdiscard, get_bind_apply, hstamped, bind_apply_ok hensure, get_bind_apply,
      bind_apply_ok hkeyed]
    rfl
  have hnodup : stamped.names.Nodup := hstamped ▸ stamped_nodup hdistinct hreserved _
  rw [wp_bind]
  -- what evolution leaves of the sink, and what it counted, of one run of it
  have hevolve := wp_and
    ((erases_evolveAndAlign be stamped).wp (evolveAndAlign_spec cfg _ s₃)
      (unwritableTallies flush.batch ++ counts))
    (counts_evolveAndAlign be stamped s₃ (unwritableTallies flush.batch ++ counts))
  refine wp_mono hevolve (fun evolved p h => ?_) (fun _ _ _ => trivial)
  obtain ⟨⟨hquiet, hrows₄⟩, hrun, hcounts⟩ := h
  obtain ⟨s₄, counts₄⟩ := p
  have hrowsEq : evolved.rows = flush.batch.rows := hrows₄.trans (by rw [← hstamped]; rfl)
  have hstanding : Standing cfg s₂ s₄ := hkey.1.trans hquiet.toStanding
  have hsteps : Steps cfg s₁ s₄ := hattached.steps.trans hstanding.steps
  have htraced₄ : Traced start s₄ := hsteps.invariant (fun _ _ hstep h => hstep.traced h) htraced
  have hprepare := wp_and
    (prepareHealing_contents cfg be evolved key
      ⟨flush.identity.getD [], be.nbytes flush.batch, flush.trigger⟩ s₄)
    (prepareHealing_spec key ⟨flush.identity.getD [], be.nbytes flush.batch, flush.trigger⟩
      (hstanding.table.trans hattached.table)
      (hstanding.prepared.trans (hattached.prepared.trans hnone)) (by rwa [hrowsEq]))
  rw [wp_bind, wp_uncounted]
  refine wp_mono hprepare (fun payload s₆ h => ?_) (fun _ _ _ => trivial)
  obtain ⟨⟨aligned, files, read', hcontents⟩, s₅, info, read, objects, hbuilt, rfl⟩ := h
  rw [wp_uncounted, wp_onSink]
  refine ⟨payload, files, aligned.columns, stamped, s₃, huntil, Built.held htraced₄ hbuilt hcontents
    hrowsEq (countedIn_iff hcounts) ?_ ?_ _ rfl⟩
  · intro name c hc hwritable hnot hkept
    rw [(evolveAndAlign_columns hnodup hrun name).1 hkept hnot, ← hstamped]
    exact column?_stamped hdistinct hc hwritable
  · exact fun name hgone => (evolveAndAlign_columns hnodup hrun name).2 hgone

theorem holdPayload_held (be : Backend ρ V) {start : ℕ} {flushes : Flush ρ V → Prop} {s : St ρ}
    (hsound : Sound cfg flushes s) (htraced : Traced start s) (flush : Flush ρ V)
    (hdistinct : flush.batch.names.Nodup) (counts : List Tally) :
    wp (holdPayload cfg be flush)
      (fun held p => held = true → isReplay flush s.sink = false → flush.batch.rows ≠ [] ∧
        ∃ payload files columns stamped s₀, untilEvolution cfg be flush s = .ok stamped s₀ ∧
          Held be flush stamped s₀ p.1 counts p.2 payload files columns)
      (fun _ _ => True) (s, counts) := by
  unfold holdPayload
  split
  · trivial
  · next hnames =>
      have hreserved : insertedAt ∉ flush.batch.names := by
        intro hmem
        exact hnames (List.any_eq_true.2 ⟨insertedAt, hmem, by decide⟩)
      rw [wp_bind, wp_count]
      dsimp only
      split
      · exact fun hheld => absurd hheld (by simp)
      · next hskip =>
          rw [wp_bind, wp_get]
          dsimp only
          split
          · next hreplay => exact fun _ hnot => absurd (hreplay.symm.trans hnot) (by simp)
          · have hrows : flush.batch.rows ≠ [] := by
              intro hnil
              exact hskip (by simp [isSkipped, hnil])
            rw [wp_bind, wp_uncounted]
            have hwhy : ∀ payload, s.sink.prepared = some payload →
                Discardable s payload .superseded := fun _ _ => .superseded
            refine wp_mono (wp_and (discardPrepared_spec cfg hwhy) (wp_run _ s))
              (fun _ s₁ h => ?_) (fun _ _ _ => trivial)
            obtain ⟨hun, hdiscard⟩ := h
            rw [wp_bind]
            have htraced₁ : Traced start s₁ :=
              hun.steps.invariant (fun _ _ hstep h => hstep.traced h) htraced
            refine wp_mono (buildPayloadCounted_held flush hdistinct hreserved hdiscard
              (hsound.noVerdict.steps hun.steps) hun.prepared hrows htraced₁ counts)
              (fun _ p h => ?_) (fun _ _ _ => trivial)
            exact fun _ _ => ⟨hrows, h⟩

section

variable {flush : Flush ρ V} {stamped : Batch ρ V} {s₀ t : St ρ} {counts counts' : List Tally}
  {payload : Payload} {files : List (PartitionValues × Batch ρ V)} {columns : List (BatchColumn ρ V)}
  {shape : Shape}

theorem mem_names_of_fields
    (h : shape.columns.map (fun c => (c.name, ArrowType.of c.type)) = columns.map fieldOf)
    (name : String) : name ∈ columns.map (·.name) ↔ name ∈ shape.columns.map (·.name) := by
  have hfst := congrArg (List.map Prod.fst) h
  rw [List.map_map, List.map_map] at hfst
  exact (congrArg (name ∈ ·) hfst).symm ▸ Iff.rfl

theorem exists_of_fields
    (h : shape.columns.map (fun c => (c.name, ArrowType.of c.type)) = columns.map fieldOf)
    (name : String) (type : HogType) : (∃ d ∈ columns, d.name = name ∧ d.type = .of type) ↔
      ∃ live ∈ shape.columns, live.name = name ∧ live.type = type := by
  have hcolumns : (name, ArrowType.of type) ∈ columns.map fieldOf ↔
      ∃ d ∈ columns, d.name = name ∧ d.type = .of type := by
    simp [fieldOf, List.mem_map]
  rw [← hcolumns, ← h]
  simp [List.mem_map]

theorem Held.files_ne_nil
    (h : Held be flush stamped s₀ t counts counts' payload files columns)
    (hrows : flush.batch.rows ≠ []) : files ≠ [] := by
  obtain ⟨row, hrow⟩ := List.exists_mem_of_ne_nil _ hrows
  obtain ⟨g, hg, -⟩ := h.rows row hrow
  exact List.ne_nil_of_mem hg

/-- A column that nothing took out is carried by the files that have it. -/
theorem Held.carries_spared_iff
    (h : Held be flush stamped s₀ t counts counts' payload files columns) (hne : files ≠ [])
    {name : String} {c : BatchColumn ρ V} (hc : flush.batch.column? name = some c)
    (hwritable : isWritable name = true) (herror : ¬ SchemaError stamped s₀ name)
    (hkept : Spared stamped s₀ name) :
    (∀ g ∈ files, Carries be c g.2) ↔ name ∈ columns.map (·.name) := by
  refine ⟨fun hcarries => ?_, h.spared name c hc hwritable herror hkept⟩
  obtain ⟨g, hg⟩ := List.exists_mem_of_ne_nil _ hne
  obtain ⟨d, hd, live, hsame, -⟩ := hcarries g hg
  rw [← name_of_column? hc, ← hsame]
  exact List.mem_map_of_mem ((h.parts g hg).1 ▸ hd)

/-- A column that went with another is null in the files that have it. -/
theorem Held.carries_gone_iff
    (h : Held be flush stamped s₀ t counts counts' payload files columns) (hne : files ≠ [])
    (hfields : shape.columns.map (fun c => (c.name, ArrowType.of c.type)) = columns.map fieldOf)
    {c : BatchColumn ρ V} (hgone : ¬ Spared stamped s₀ c.name) :
    (∀ g ∈ files, Carries be c g.2) ↔
      ∃ live ∈ shape.columns, live.name = c.name ∧ Blank be c flush.batch.rows live.type := by
  have hnull : ∀ d ∈ columns, d.name = c.name → ∀ row ∈ flush.batch.rows, d.cell row = none :=
    fun d hd hsame => h.null d hd (hsame ▸ hgone)
  rw [carries_null_iff hne h.rows h.parts hnull]
  constructor
  · rintro ⟨d, hd, type, hsame, htype, hblank⟩
    obtain ⟨live, hlive, hname, rfl⟩ := (exists_of_fields hfields c.name type).1 ⟨d, hd, hsame, htype⟩
    exact ⟨live, hlive, hname, hblank⟩
  · rintro ⟨live, hlive, hname, hblank⟩
    obtain ⟨d, hd, hsame, htype⟩ :=
      (exists_of_fields hfields c.name live.type).2 ⟨live, hlive, hname, rfl⟩
    exact ⟨d, hd, live.type, hsame, htype, hblank⟩

/-- What is held loses nothing silently exactly when every column is accounted for. -/
theorem Held.noSilentLoss_iff (h : Held be flush stamped s₀ t counts counts' payload files columns)
    (hrows : flush.batch.rows ≠ []) {later : Server}
    (hlater : t.world.net.server.Evolves later) {key : Key} {commit : Commit}
    (hcommit : later.ledger.lookup key = some commit) (hrequest : commit.request = payload) :
    NoSilentLoss be flush.batch files counts' ↔
      Accounted be flush.batch stamped s₀ counts commit.shape := by
  have hfields := h.finds later hlater key commit hcommit hrequest
  have hne := h.files_ne_nil hrows
  refine forall_congr' fun name => forall_congr' fun c => forall_congr' fun hc => ?_
  have hname := name_of_column? hc
  have hmem : name ∈ flush.batch.names := column?_isSome.1 (by rw [hc]; rfl)
  rw [h.counted name, and_iff_right hmem]
  -- only a column that nothing was counted for is left
  by_cases hcounted : CountedIn counts name
  · simp [hcounted]
  by_cases hwritable : isWritable name = true
  · by_cases herror : SchemaError stamped s₀ name
    · simp [herror]
    · simp only [hcounted, herror, hwritable, Bool.true_eq_false, false_or, or_false]
      unfold Reaches
      by_cases hkept : Spared stamped s₀ name
      · rw [h.carries_spared_iff hne hc hwritable herror hkept, mem_names_of_fields hfields, hname,
          and_iff_right hkept]
        refine ⟨Or.inl, ?_⟩
        rintro (hlive | ⟨live, hlive, hsame, -⟩)
        · exact hlive
        · exact hsame ▸ List.mem_map_of_mem hlive
      · rw [← hname] at hkept
        rw [h.carries_gone_iff hne hfields hkept]
        simp only [hkept, false_and, false_or]
  · simp [Bool.eq_false_iff.2 hwritable]

end

/-- What `write` holds before its commit, and what a commit of it means for the columns. -/
def AccountsFor (cfg : SinkConfig) (be : Backend ρ V) (flush : Flush ρ V) (s t : St ρ)
    (counts counts' : List Tally) : Prop :=
  ∃ payload files stamped s₀, t.sink.prepared = some payload ∧
    Uploaded payload.files files t.world ∧
    (∀ row ∈ flush.batch.rows, ∃ g ∈ files, row ∈ g.2.rows) ∧
    untilEvolution cfg be flush s = .ok stamped s₀ ∧
    ∀ later, t.world.net.server.Evolves later → ∀ key commit, later.ledger.lookup key = some commit →
      commit.request = payload → (NoSilentLoss be flush.batch files counts' ↔
        Accounted be flush.batch stamped s₀ counts commit.shape)

/-- The table with a column `x`. -/
def withX : Shape := ⟨demoColumns ++ [⟨"x", 3, .long⟩], [⟨1, "identity", none⟩], []⟩

/-- What a flush of a new sink holds after these calls, if it is no replay. -/
def heldAfter (calls : List (Call ℕ ℕ)) (flush : Flush ℕ ℕ) : Option (St ℕ × List Tally) :=
  (run expiringCfg demoBackend (St.new (demoWorld withX [])) calls).bind fun s =>
    match holdPayload expiringCfg demoBackend flush (s, []) with
    | .ok true p => if isReplay flush s.sink then none else some p
    | _ => none

theorem holdPayload_of_heldAfter {calls : List (Call ℕ ℕ)} {flush : Flush ℕ ℕ}
    {p : St ℕ × List Tally} (h : heldAfter calls flush = some p) :
    ∃ s, run expiringCfg demoBackend (St.new (demoWorld withX [])) calls = some s ∧
      isReplay flush s.sink = false ∧
      holdPayload expiringCfg demoBackend flush (s, []) = .ok true p := by
  obtain ⟨s, hs, hrest⟩ := Option.bind_eq_some_iff.1 h
  refine ⟨s, hs, ?_⟩
  cases hresult : holdPayload expiringCfg demoBackend flush (s, []) with
  | error e q => simp [hresult] at hrest
  | ok held q =>
      cases held with
      | false => simp [hresult] at hrest
      | true =>
          rw [hresult] at hrest
          dsimp only at hrest
          split at hrest
          · exact absurd hrest (by simp)
          · next hnot =>
              obtain rfl := Option.some.inj hrest
              exact ⟨by simpa using hnot, rfl⟩

/-- The others drop `x` while the sink's shape grows old. -/
def dropX : Call ℕ ℕ := .others [.elapse 2 (by decide), .alterTable partitionedByV]

/-- A column `x` without a type mapping, a live column `y`, and a new column `b`. -/
def withB : Batch ℕ ℕ :=
  ⟨[9], [⟨"v", .of .long, some⟩, ⟨"x", .unmapped "null", fun _ => none⟩, ⟨"y", .of .long, some⟩,
    ⟨"b", .of .long, some⟩]⟩

/-- The table has `y`, and before the add of `b` another writer adds `x`. -/
def addedX : World ℕ :=
  let withY := demoColumns ++ [⟨"y", 3, .long⟩]
  demoWorld ⟨withY, [], []⟩ [answered, answered, answered,
    demoTurn [.alterTable ⟨withY ++ [⟨"x", 4, .string⟩], [], []⟩] .answered]

/-- The receipt for `b` shows `x`, so that `x` is listed twice; `drop_columns` takes out `y` after it,
    and the nulls that are filled in are counted nowhere. -/
example : wp (evolveAndAlignCounted demoBackend withB)
    (fun evolved p => (evolved.column? "y").map (fun c => c.cell 9) = some none ∧
      p.2 = [.schema "x", .schema "x"]) (fun _ _ => False)
    (final (ensureTable demoCfg withB) (St.new addedX), []) := by
  decide +kernel

end Millpond.Hoglake
