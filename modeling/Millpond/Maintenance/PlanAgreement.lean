import Millpond.Maintenance.Enumeration

set_option autoImplicit false

/-! # The planner and the executor agree

A leaf is a tuple of the live spec together with the files that hold it. Over such leaves, what
`list-droppable-partitions` emits and what `drop-partitions --manifest` makes of it are compared. -/

namespace Millpond.Maintenance

variable {spec : PartitionSpec} {tableId : ℕ} {cutoff floorSnap maxFiles maxRot : ℤ} {c : Catalog}
  {t : ℕ → String}

/-! ## Leaves of a catalog -/

/-- A live file of the live spec that is not above the floor. -/
def onLiveSpec (spec : PartitionSpec) (tableId : ℕ) (floorSnap : ℤ) (f : DataFile) : Bool :=
  f.tableId = tableId ∧ f.endSnapshot = none ∧ f.partitionId = some spec.partitionId ∧
    (f.beginSnapshot : ℤ) ≤ floorSnap

/-- All partition values of a file. -/
def fileValues (c : Catalog) (dataFileId : ℕ) : List PartitionValue :=
  c.filePartitionValues.filter fun v => v.dataFileId = dataFileId

/-- A file of the leaf `t`, going by the values in `valuesOf`. -/
def inLeaf (spec : PartitionSpec) (tableId : ℕ) (floorSnap : ℤ) (valuesOf : ℕ → List PartitionValue)
    (t : ℕ → String) (f : DataFile) : Bool :=
  onLiveSpec spec tableId floorSnap f && holds (spec.tuple t) (valuesOf f.dataFileId)

/-- The files of the leaf `t` to the planner: it reads the values that are under the table. -/
def members (spec : PartitionSpec) (tableId : ℕ) (floorSnap : ℤ) (c : Catalog) (t : ℕ → String) :
    List DataFile :=
  c.dataFiles.rows.filter (inLeaf spec tableId floorSnap (ownValues tableId c) t)

/-- The tuple composes to an instant below the cutoff. -/
def Below (spec : PartitionSpec) (cutoff : ℤ) (t : ℕ → String) : Prop :=
  ∃ partTs < cutoff, composePartTs spec (spec.tupleMap t) = .ok (some partTs)

theorem onLiveSpec_iff {f : DataFile} : onLiveSpec spec tableId floorSnap f = true ↔
    f.tableId = tableId ∧ f.endSnapshot = none ∧ f.partitionId = some spec.partitionId ∧
      (f.beginSnapshot : ℤ) ≤ floorSnap := by
  simp [onLiveSpec]

theorem inLeaf_iff {valuesOf : ℕ → List PartitionValue} {f : DataFile} :
    inLeaf spec tableId floorSnap valuesOf t f = true ↔
      onLiveSpec spec tableId floorSnap f = true ∧
        holds (spec.tuple t) (valuesOf f.dataFileId) = true := by
  simp [inLeaf]

/-- A spec without keys composes nothing. -/
theorem Below.keys_ne_nil (h : Below spec cutoff t) : spec.keys ≠ [] := by
  intro hnil
  obtain ⟨partTs, _, hts⟩ := h
  simp [composePartTs, timeField, hnil, timeTransforms] at hts

/-! ## What the listing emits -/

/-- A leaf of a listing, by its tuple. -/
structure LeafOf (spec : PartitionSpec) (tableId : ℕ) (cutoff floorSnap maxFiles : ℤ) (c : Catalog)
    (t : ℕ → String) (leaf : Leaf) : Prop where
  below : Below spec cutoff t
  values : leaf.values = spec.keys.map fun k => (k.address, t k.index)
  files : leaf.files.Perm ((members spec tableId floorSnap c t).map DataFile.leafFile)
  nonempty : leaf.files ≠ []
  oversized : leaf.oversized = decide (maxFiles < leaf.files.length)

/-- The rows of `_enumeration_sql` are of these files. -/
def enumerated (tableId : ℕ) (c : Catalog) (f : DataFile) : Bool :=
  f.tableId = tableId ∧ f.endSnapshot = none ∧ !(ownValues tableId c f.dataFileId).isEmpty

theorem text_of_bucketKey {row : EnumRow}
    (h : row.bucketKey spec = spec.keys.map fun k => t k.index) :
    ∀ k ∈ spec.keys, row.text k.index = t k.index := List.map_inj_left.1 h

/-- The candidate row of a file is in the bucket of `t` exactly when the file is in the leaf. -/
theorem inLeaf_iff_candidate (hlive : spec.Live) (hbelow : Below spec cutoff t) (f : DataFile) :
    inLeaf spec tableId floorSnap (ownValues tableId c) t f = true ↔
      enumerated tableId c f = true ∧ ∃ r,
        (enumRow tableId c f).candidate spec cutoff floorSnap = some r ∧
          r.1.bucketKey spec = spec.keys.map fun k => t k.index := by
  rw [inLeaf_iff]
  constructor
  · rintro ⟨hon, hholds⟩
    obtain ⟨hsane, hcolumn⟩ := sane_of_holds hlive hholds
    obtain ⟨htable, hend, hpartition, hfloor⟩ := onLiveSpec_iff.1 hon
    obtain ⟨partTs, hcut, hts⟩ := hbelow
    have hcompose : (enumRow tableId c f).partTs spec = .ok (some partTs) := by
      rw [EnumRow.partTs, if_pos hsane, ← hts]
      exact composePartTs_congr fun k hk => by rw [hcolumn k hk, tupleMap_key hk]
    have hvalues : ownValues tableId c f.dataFileId ≠ [] := by
      intro hnil
      have hlength := (holds_iff.1 hholds).1
      rw [hnil, PartitionSpec.tuple, List.length_map] at hlength
      exact Below.keys_ne_nil ⟨partTs, hcut, hts⟩ (List.length_eq_zero_iff.1 hlength.symm)
    refine ⟨by simp [enumerated, htable, hend, hvalues], (_, partTs),
      candidate_eq_some.2 ⟨rfl, hcompose, fits_iff.2 ⟨hpartition, hcut, hfloor⟩⟩, ?_⟩
    refine List.map_congr_left fun k hk => ?_
    show (enumRow tableId c f).text k.index = _
    rw [EnumRow.text, hcolumn k hk]
    rfl
  · rintro ⟨henumerated, r, hr, hkey⟩
    obtain ⟨hrow, hts, hfits⟩ := candidate_eq_some.1 hr
    obtain ⟨hpartition, _, hfloor⟩ := fits_iff.1 hfits
    simp only [enumerated, decide_eq_true_eq] at henumerated
    refine ⟨onLiveSpec_iff.2 ⟨henumerated.1, henumerated.2.1, hpartition, hfloor⟩, ?_⟩
    have hsane : (enumRow tableId c f).sane spec = true := by
      by_contra hnot
      rw [EnumRow.partTs, if_neg hnot] at hts
      cases hts
    have htuple : spec.tuple (enumRow tableId c f).text = spec.tuple t :=
      List.map_congr_left fun k hk => by rw [hrow, text_of_bucketKey hkey k hk]
    rw [← htuple]
    exact holds_of_sane hsane

/-- The bucket of `t`. -/
def bucketOf (spec : PartitionSpec) (cutoff floorSnap : ℤ) (t : ℕ → String) (rows : List EnumRow) :
    List (EnumRow × ℤ) :=
  (rows.filterMap (EnumRow.candidate spec cutoff floorSnap)).filter fun r =>
    r.1.bucketKey spec = spec.keys.map fun k => t k.index

theorem bucketOf_files (hlive : spec.Live) (hbelow : Below spec cutoff t) (files : List DataFile) :
    (bucketOf spec cutoff floorSnap t ((files.filter (enumerated tableId c)).map
        (enumRow tableId c))).map (fun r => r.1.leafFile)
      = (files.filter (inLeaf spec tableId floorSnap (ownValues tableId c) t)).map
          DataFile.leafFile := by
  unfold bucketOf
  induction files with
  | nil => rfl
  | cons f rest ih =>
      have hiff : inLeaf spec tableId floorSnap (ownValues tableId c) t f = true ↔ _ :=
        inLeaf_iff_candidate hlive hbelow f
      by_cases hin : inLeaf spec tableId floorSnap (ownValues tableId c) t f = true
      · obtain ⟨henumerated, r, hr, hkey⟩ := hiff.1 hin
        rw [List.filter_cons_of_pos henumerated, List.map_cons, List.filterMap_cons_some hr,
          List.filter_cons_of_pos (by simpa using hkey), List.map_cons, ih,
          List.filter_cons_of_pos hin, List.map_cons, ← (candidate_eq_some.1 hr).1]
        rfl
      · rw [List.filter_cons_of_neg hin, ← ih]
        by_cases henumerated : enumerated tableId c f = true
        · rw [List.filter_cons_of_pos henumerated, List.map_cons]
          cases hr : (enumRow tableId c f).candidate spec cutoff floorSnap with
          | none => rw [List.filterMap_cons_none hr]
          | some r =>
              have hkey : ¬ r.1.bucketKey spec = spec.keys.map fun k => t k.index :=
                fun hkey => hin (hiff.2 ⟨henumerated, r, hr, hkey⟩)
              rw [List.filterMap_cons_some hr, List.filter_cons_of_neg (by simpa using hkey)]
        · rw [List.filter_cons_of_neg henumerated]

/-- The enumeration buckets the files of the leaf. -/
theorem bucketOf_members (hlive : spec.Live) (hbelow : Below spec cutoff t) {rows : List EnumRow}
    (hrows : rows.Perm (enumerationRows tableId c)) :
    ((bucketOf spec cutoff floorSnap t rows).map fun r => r.1.leafFile).Perm
      ((members spec tableId floorSnap c t).map DataFile.leafFile) := by
  rw [members, ← bucketOf_files hlive hbelow]
  exact ((hrows.filterMap _).filter _).map _

/-- The leaf of a bucket that is not empty. -/
theorem leafOf_bucket (hlive : spec.Live) (hbelow : Below spec cutoff t) {rows : List EnumRow}
    (hrows : rows.Perm (enumerationRows tableId c)) {first : EnumRow × ℤ}
    {rest : List (EnumRow × ℤ)}
    (hbucket : bucketOf spec cutoff floorSnap t rows = first :: rest) :
    LeafOf spec tableId cutoff floorSnap maxFiles c t
      (Leaf.mark maxFiles { firstOfLeaf spec first with
        files := (first :: rest).map fun r => r.1.leafFile }) where
  below := hbelow
  values := by
    have hfirst : first ∈ bucketOf spec cutoff floorSnap t rows := hbucket ▸ List.mem_cons_self
    have hkey : first.1.bucketKey spec = spec.keys.map fun k => t k.index := by
      simpa using (List.mem_filter.1 hfirst).2
    exact List.map_congr_left fun k hk => by rw [text_of_bucketKey hkey k hk]
  files := by
    show ((first :: rest).map fun r => r.1.leafFile).Perm _
    rw [← hbucket]
    exact bucketOf_members hlive hbelow hrows
  nonempty := List.cons_ne_nil _ _
  oversized := rfl

/-- Every leaf of a listing is the leaf of a tuple. -/
theorem leafOf_of_mem (hlive : spec.Live) {rows : List EnumRow} {listing : Listing} {leaf : Leaf}
    (hrows : rows.Perm (enumerationRows tableId c))
    (h : classifyEnumeration spec cutoff floorSnap maxFiles maxRot rows = .ok listing)
    (hleaf : leaf ∈ listing.leaves) :
    ∃ t, LeafOf spec tableId cutoff floorSnap maxFiles c t leaf := by
  obtain ⟨⟨key, b⟩, hbucket, rfl⟩ := (mem_leaves h).1 hleaf
  have hmembers := Groups.mem_collect.1 hbucket
  cases hlist : (rows.filterMap (EnumRow.candidate spec cutoff floorSnap)).filter
      fun r => r.1.bucketKey spec = key with
  | nil =>
      rw [hlist] at hmembers
      cases hmembers
  | cons first rest =>
      rw [hlist, fromMembers_leaf] at hmembers
      obtain rfl := Option.some.inj hmembers
      have hfirst := List.mem_filter.1 (hlist ▸ List.mem_cons_self : first ∈ _)
      obtain ⟨row, hrow, hcandidate⟩ := List.mem_filterMap.1 hfirst.1
      obtain ⟨rfl, hts, hfits⟩ := candidate_eq_some.1 hcandidate
      have hkey : first.1.bucketKey spec = key := by simpa using hfirst.2
      have hsane : first.1.sane spec = true := by
        by_contra hnot
        rw [EnumRow.partTs, if_neg hnot] at hts
        cases hts
      have hbelow : Below spec cutoff first.1.text := by
        refine ⟨first.2, (fits_iff.1 hfits).2.1, ?_⟩
        rw [EnumRow.partTs, if_pos hsane] at hts
        rw [← hts]
        refine composePartTs_congr fun k hk => ?_
        simp only [EnumRow.sane, decide_eq_true_eq] at hsane
        obtain ⟨value, hvalue⟩ := Option.isSome_iff_exists.1 (hsane.2.2 k hk)
        rw [tupleMap_key hk, EnumRow.text, hvalue]
        rfl
      refine ⟨first.1.text, leafOf_bucket hlive hbelow hrows ?_⟩
      rw [← hlist, ← hkey]
      rfl

/-- Every tuple below the cutoff that a file holds has its leaf in the listing. -/
theorem exists_leaf (hlive : spec.Live) {rows : List EnumRow} {listing : Listing}
    (hrows : rows.Perm (enumerationRows tableId c))
    (h : classifyEnumeration spec cutoff floorSnap maxFiles maxRot rows = .ok listing)
    (hbelow : Below spec cutoff t) (hmembers : members spec tableId floorSnap c t ≠ []) :
    ∃ leaf ∈ listing.leaves, LeafOf spec tableId cutoff floorSnap maxFiles c t leaf := by
  cases hbucket : bucketOf spec cutoff floorSnap t rows with
  | nil =>
      have hperm : ((bucketOf spec cutoff floorSnap t rows).map fun r => r.1.leafFile).Perm _ :=
        bucketOf_members hlive hbelow hrows
      rw [hbucket, List.map_nil] at hperm
      exact absurd (List.map_eq_nil_iff.1 hperm.nil_eq.symm) hmembers
  | cons first rest =>
      have hmem : (spec.keys.map (fun k => t k.index), { firstOfLeaf spec first with
          files := (first :: rest).map fun r => r.1.leafFile }) ∈
          leafBuckets spec (rows.filterMap (EnumRow.candidate spec cutoff floorSnap)) := by
        refine Groups.mem_collect.2 ?_
        rw [← fromMembers_leaf, ← hbucket]
        rfl
      exact ⟨_, (mem_leaves h).2 ⟨_, hmem, rfl⟩, leafOf_bucket hlive hbelow hrows hbucket⟩

/-! ## What the executor selects -/

/-- The parameters for the leaf `t`. -/
def PartitionSpec.leafTuple (spec : PartitionSpec) (floorSnap : ℤ) (t : ℕ → String) : LeafTuple :=
  ⟨spec.partitionId, spec.tuple t, floorSnap⟩

/-- The files of the leaf `t` to the executor: it reads the values of the file whatever table they
    are under. -/
theorem selects_eq (f : DataFile) : (spec.leafTuple floorSnap t).selects tableId c f
    = inLeaf spec tableId floorSnap (fileValues c) t f := by
  rw [Bool.eq_iff_iff, inLeaf_iff, onLiveSpec_iff, holds_iff, LeafTuple.selects, decide_eq_true_eq]
  simp only [PartitionSpec.leafTuple, fileValues, List.mem_filter, decide_eq_true_eq, and_assoc]

theorem selectLeafFiles_perm : (selectLeafFiles (spec.leafTuple floorSnap t) tableId c).Perm
    ((c.dataFiles.rows.filter (inLeaf spec tableId floorSnap (fileValues c) t)).map
      DataFile.leafFile) := by
  have hselects : (spec.leafTuple floorSnap t).selects tableId c
      = inLeaf spec tableId floorSnap (fileValues c) t := funext selects_eq
  rw [selectLeafFiles, hselects]
  exact (List.perm_insertionSort _ _).map _

/-- A file is in a leaf exactly when the leaf lists its row: ids are primary keys. -/
theorem leafFile_mem_iff {p : DataFile → Bool} {f : DataFile} (hf : f ∈ c.dataFiles.rows) :
    f.leafFile ∈ (c.dataFiles.rows.filter p).map DataFile.leafFile ↔ p f = true := by
  constructor
  · intro hmem
    obtain ⟨g, hg, heq⟩ := List.mem_map.1 hmem
    obtain ⟨hgrows, hp⟩ := List.mem_filter.1 hg
    have hid : g.dataFileId = f.dataFileId := congrArg LeafFile.dataFileId heq
    rwa [← Table.eq_of_key hgrows hf hid]
  · exact fun hp => List.mem_map.2 ⟨f, List.mem_filter.2 ⟨hf, hp⟩, rfl⟩

theorem leafTuple_tupleMap :
    leafTuple spec floorSnap (spec.tupleMap t) = .ok (spec.leafTuple floorSnap t) := by
  have hkeys : (spec.keys.mapM fun k =>
      ((spec.tupleMap t k.index).map fun value => (k.index, value)).elim
        (.error PlanAbort.keyError) Except.ok) = .ok (spec.tuple t) := by
    refine mapM_eq_ok_iff.2 ((List.forall₂_map_right_iff).2 (List.forall₂_same.2 fun k hk => ?_))
    rw [tupleMap_key hk]
    rfl
  rw [leafTuple, hkeys]
  rfl

/-- The executor gets through the selection of every leaf below the cutoff. -/
theorem processLeaf_of_below (hbelow : Below spec cutoff t) :
    processLeaf spec tableId cutoff floorSnap maxFiles c (spec.tupleMap t)
      = .ok (if maxFiles < (selectLeafFiles (spec.leafTuple floorSnap t) tableId c).length then
          .oversized (selectLeafFiles (spec.leafTuple floorSnap t) tableId c).length
        else if (selectLeafFiles (spec.leafTuple floorSnap t) tableId c).isEmpty then .nothingLive
        else .selected (selectLeafFiles (spec.leafTuple floorSnap t) tableId c)) := by
  obtain ⟨partTs, hcut, hts⟩ := hbelow
  have hbelowCutoff : (some partTs).all (cutoff ≤ ·) = false := by
    simpa using hcut
  unfold processLeaf
  rw [hts]
  show (if (some partTs).all (cutoff ≤ ·) = true then pure LeafOutcome.notBelow else _) = _
  rw [hbelowCutoff, if_neg Bool.false_ne_true, leafTuple_tupleMap]
  show (if _ then _ else _) = _
  split_ifs <;> rfl

/-! ## Agreement -/

/-- The map has exactly the stored partition values of every file of the leaf. -/
def Stored (c : Catalog) (leaf : Leaf) (tupleMap : TupleMap) : Prop :=
  ∀ f ∈ leaf.files, ∀ index value, tupleMap index = some value ↔
    ∃ v ∈ c.filePartitionValues, v.dataFileId = f.dataFileId ∧ v.partitionKeyIndex = index ∧
      v.partitionValue = some value

/-- A leaf that is not oversized goes on to the drop with its files. -/
def Processed (leaf : Leaf) (outcome : LeafOutcome) : Prop :=
  leaf.oversized = false → ∃ files, outcome = .selected files ∧ files.Perm leaf.files

/-- The executor reads back every leaf, selects its files, and gets through the manifest. -/
structure ManifestAgrees (spec : PartitionSpec) (tableId : ℕ) (cutoff floorSnap maxFiles : ℤ)
    (c : Catalog) (leaves : List Leaf) : Prop where
  accepted : ∀ leaf ∈ leaves, leaf.oversized = false → ∃ tupleMap,
    tupleFromValues spec leaf.entry = .ok tupleMap ∧ Stored c leaf tupleMap ∧ ∃ tuple,
      leafTuple spec floorSnap tupleMap = .ok tuple ∧
        (selectLeafFiles tuple tableId c).Perm leaf.files
  processed : ∃ outcomes,
    dropManifest spec tableId cutoff floorSnap maxFiles c leaves = .ok outcomes ∧
      List.Forall₂ Processed leaves outcomes

/-- Every tuple that a planned file holds can be read back, and where the leaf is not too large, the
    files that hold it have no partition value under another table. -/
structure Addressable (spec : PartitionSpec) (tableId : ℕ) (cutoff floorSnap maxFiles : ℤ)
    (c : Catalog) : Prop where
  readable : ∀ t, Below spec cutoff t → members spec tableId floorSnap c t ≠ [] →
    ∀ k ∈ spec.keys, k.takes (t k.index) = true
  undisturbed : ∀ t, Below spec cutoff t → members spec tableId floorSnap c t ≠ [] →
    ((members spec tableId floorSnap c t).length : ℤ) ≤ maxFiles →
    ∀ f ∈ c.dataFiles.rows,
      (inLeaf spec tableId floorSnap (ownValues tableId c) t f = true ∨
        inLeaf spec tableId floorSnap (fileValues c) t f = true) →
      ∀ v ∈ c.filePartitionValues, v.dataFileId = f.dataFileId → v.tableId = tableId

/-- No value under another table, and the two ways of reading a file are one. -/
theorem ownValues_eq {id : ℕ}
    (h : ∀ v ∈ c.filePartitionValues, v.dataFileId = id → v.tableId = tableId) :
    ownValues tableId c id = fileValues c id := by
  refine List.filter_congr fun v hv => ?_
  by_cases hid : v.dataFileId = id
  · simp [hid, h v hv hid]
  · simp [hid]

/-- Both ways of reading find the same number of values: they find the same. -/
theorem eq_table_of_holds {f : DataFile}
    (hown : holds (spec.tuple t) (ownValues tableId c f.dataFileId) = true)
    (hall : holds (spec.tuple t) (fileValues c f.dataFileId) = true) :
    ∀ v ∈ c.filePartitionValues, v.dataFileId = f.dataFileId → v.tableId = tableId := by
  have hsublist : (ownValues tableId c f.dataFileId).Sublist (fileValues c f.dataFileId) := by
    refine List.monotone_filter_right _ fun v hv => ?_
    simp only [decide_eq_true_eq] at hv ⊢
    exact hv.2
  have heq := hsublist.eq_of_length
    ((holds_iff.1 hown).1.trans (holds_iff.1 hall).1.symm)
  intro v hv hid
  have hmem : v ∈ ownValues tableId c f.dataFileId := by
    rw [heq]
    exact List.mem_filter.2 ⟨hv, by simpa using hid⟩
  have hboth := (List.mem_filter.1 hmem).2
  simp only [decide_eq_true_eq] at hboth
  exact hboth.1

theorem LeafOf.entry {leaf : Leaf} (h : LeafOf spec tableId cutoff floorSnap maxFiles c t leaf) :
    leaf.entry = spec.keys.map fun k => (k.address, .str (t k.index)) := by
  rw [Leaf.entry, h.values, List.map_map]
  rfl

theorem LeafOf.members_ne_nil {leaf : Leaf}
    (h : LeafOf spec tableId cutoff floorSnap maxFiles c t leaf) :
    members spec tableId floorSnap c t ≠ [] := by
  intro hnil
  have hperm := h.files
  rw [hnil, List.map_nil] at hperm
  exact h.nonempty hperm.eq_nil

theorem LeafOf.oversized_eq_false {leaf : Leaf}
    (h : LeafOf spec tableId cutoff floorSnap maxFiles c t leaf) :
    leaf.oversized = false ↔ ((members spec tableId floorSnap c t).length : ℤ) ≤ maxFiles := by
  have hlength := h.files.length_eq
  rw [List.length_map] at hlength
  rw [h.oversized, hlength, decide_eq_false_iff_not, not_lt]

/-- In a leaf that nothing disturbs, the executor selects what the planner found. -/
theorem select_perm_of_undisturbed {leaf : Leaf}
    (hleaf : LeafOf spec tableId cutoff floorSnap maxFiles c t leaf)
    (h : ∀ f ∈ c.dataFiles.rows,
      (inLeaf spec tableId floorSnap (ownValues tableId c) t f = true ∨
        inLeaf spec tableId floorSnap (fileValues c) t f = true) →
      ∀ v ∈ c.filePartitionValues, v.dataFileId = f.dataFileId → v.tableId = tableId) :
    (selectLeafFiles (spec.leafTuple floorSnap t) tableId c).Perm leaf.files := by
  have hfilter : c.dataFiles.rows.filter (inLeaf spec tableId floorSnap (fileValues c) t)
      = members spec tableId floorSnap c t := by
    refine List.filter_congr fun f hf => ?_
    rw [Bool.eq_iff_iff]
    constructor
    · intro hall
      have hown := ownValues_eq (h f hf (Or.inr hall))
      rw [inLeaf_iff] at hall ⊢
      rwa [hown]
    · intro hin
      have hown := ownValues_eq (h f hf (Or.inl hin))
      rw [inLeaf_iff] at hin ⊢
      rwa [← hown]
  have hselected : (selectLeafFiles (spec.leafTuple floorSnap t) tableId c).Perm _ :=
    selectLeafFiles_perm
  rw [hfilter] at hselected
  exact hselected.trans hleaf.files.symm

theorem stored_of_undisturbed (hlive : spec.Live) {leaf : Leaf}
    (hleaf : LeafOf spec tableId cutoff floorSnap maxFiles c t leaf)
    (h : ∀ f ∈ c.dataFiles.rows,
      (inLeaf spec tableId floorSnap (ownValues tableId c) t f = true ∨
        inLeaf spec tableId floorSnap (fileValues c) t f = true) →
      ∀ v ∈ c.filePartitionValues, v.dataFileId = f.dataFileId → v.tableId = tableId) :
    Stored c leaf (spec.tupleMap t) := by
  intro file hfile index value
  obtain ⟨f, hf, rfl⟩ := List.mem_map.1 (hleaf.files.mem_iff.1 hfile)
  obtain ⟨hrows, hin⟩ := List.mem_filter.1 hf
  have hholds := (inLeaf_iff.1 hin).2
  rw [ownValues_eq (h f hrows (Or.inl hin))] at hholds
  have hexists : (∃ v ∈ fileValues c f.dataFileId, v.partitionKeyIndex = index ∧
      v.partitionValue = some value) ↔ (index, value) ∈ spec.tuple t :=
    exists_value_iff (tuple_keys_nodup hlive t) hholds
  have htuple : (index, value) ∈ spec.tuple t ↔ spec.tupleMap t index = some value := by
    simp only [PartitionSpec.tuple, PartitionSpec.tupleMap, List.mem_map, Prod.mk.injEq]
    constructor
    · rintro ⟨k, hk, rfl, rfl⟩
      exact if_pos ⟨k, hk, rfl⟩
    · intro hsome
      split_ifs at hsome with hk
      obtain ⟨k, hk, rfl⟩ := hk
      exact ⟨k, hk, rfl, Option.some.inj hsome⟩
  rw [← htuple, ← hexists]
  simp only [fileValues, List.mem_filter, decide_eq_true_eq, and_assoc]
  rfl

theorem manifestAgrees_of_addressable (hlive : spec.Live) {leaves : List Leaf}
    (hunageable : assertNoUnageableFiles tableId c = .ok ⟨⟩)
    (hleaves : ∀ leaf ∈ leaves, ∃ t, LeafOf spec tableId cutoff floorSnap maxFiles c t leaf)
    (h : Addressable spec tableId cutoff floorSnap maxFiles c) :
    ManifestAgrees spec tableId cutoff floorSnap maxFiles c leaves := by
  have hread : ∀ {t leaf}, LeafOf spec tableId cutoff floorSnap maxFiles c t leaf →
      tupleFromValues spec leaf.entry = .ok (spec.tupleMap t) := fun hleaf => by
    rw [hleaf.entry]
    exact (tupleFromValues_eq_ok hlive _).2
      ⟨h.readable _ hleaf.below hleaf.members_ne_nil, rfl⟩
  have hundisturbed := fun {t leaf}
      (hleaf : LeafOf spec tableId cutoff floorSnap maxFiles c t leaf)
      (hsize : leaf.oversized = false) =>
    h.undisturbed t hleaf.below hleaf.members_ne_nil (hleaf.oversized_eq_false.1 hsize)
  constructor
  · intro leaf hmem hsize
    obtain ⟨t, hleaf⟩ := hleaves leaf hmem
    exact ⟨_, hread hleaf, stored_of_undisturbed hlive hleaf (hundisturbed hleaf hsize), _,
      leafTuple_tupleMap, select_perm_of_undisturbed hleaf (hundisturbed hleaf hsize)⟩
  · have hwork : ∀ leaf ∈ leaves, ∃ tupleMap, tupleFromValues spec leaf.entry = .ok tupleMap ∧
        ∃ t, LeafOf spec tableId cutoff floorSnap maxFiles c t leaf ∧ tupleMap = spec.tupleMap t := by
      intro leaf hmem
      obtain ⟨t, hleaf⟩ := hleaves leaf hmem
      exact ⟨_, hread hleaf, t, hleaf, rfl⟩
    obtain ⟨work, hmap, hrelated⟩ := mapM_of_forall hwork
    have hstep : ∀ leaf tupleMap,
        (∃ t, LeafOf spec tableId cutoff floorSnap maxFiles c t leaf ∧ tupleMap = spec.tupleMap t) →
        ∃ outcome, processLeaf spec tableId cutoff floorSnap maxFiles c tupleMap = .ok outcome ∧
          Processed leaf outcome := by
      rintro leaf _ ⟨t, hleaf, rfl⟩
      refine ⟨_, processLeaf_of_below hleaf.below, fun hsize => ?_⟩
      have hperm := select_perm_of_undisturbed hleaf (hundisturbed hleaf hsize)
      have hfits : ¬ maxFiles < leaf.files.length := by
        rw [hleaf.oversized, decide_eq_false_iff_not] at hsize
        exact hsize
      have hnonempty : ¬ (selectLeafFiles (spec.leafTuple floorSnap t) tableId c).isEmpty = true := by
        intro hempty
        rw [List.isEmpty_iff] at hempty
        rw [hempty] at hperm
        exact hleaf.nonempty hperm.nil_eq.symm
      refine ⟨_, ?_, hperm⟩
      rw [hperm.length_eq, if_neg hfits, if_neg hnonempty]
    obtain ⟨outcomes, houtcomes, hprocessed⟩ := mapM_of_forall₂ hstep hrelated
    exact ⟨outcomes, bind_eq_ok.2 ⟨_, hunageable, bind_eq_ok.2 ⟨_, hmap, houtcomes⟩⟩, hprocessed⟩

/-- The run got through its manifest only if it read back every leaf. -/
theorem readable_of_dropManifest (hlive : spec.Live) {leaves : List Leaf}
    {outcomes : List LeafOutcome}
    (h : dropManifest spec tableId cutoff floorSnap maxFiles c leaves = .ok outcomes) {leaf : Leaf}
    (hmem : leaf ∈ leaves) (hleaf : LeafOf spec tableId cutoff floorSnap maxFiles c t leaf) :
    ∀ k ∈ spec.keys, k.takes (t k.index) = true := by
  unfold dropManifest at h
  obtain ⟨_, _, hrest⟩ := bind_eq_ok.1 h
  obtain ⟨work, hwork, _⟩ := bind_eq_ok.1 hrest
  obtain ⟨tupleMap, htuple⟩ := ok_of_mapM hwork leaf hmem
  rw [hleaf.entry] at htuple
  exact ((tupleFromValues_eq_ok hlive t).1 htuple).1

/-- A file that one of the two reads into the leaf is read into it by both, so nothing of it is under
    another table. -/
theorem undisturbed_of_perm {leaf : Leaf}
    (hleaf : LeafOf spec tableId cutoff floorSnap maxFiles c t leaf)
    (hperm : (selectLeafFiles (spec.leafTuple floorSnap t) tableId c).Perm leaf.files)
    {f : DataFile} (hf : f ∈ c.dataFiles.rows)
    (hin : inLeaf spec tableId floorSnap (ownValues tableId c) t f = true ∨
      inLeaf spec tableId floorSnap (fileValues c) t f = true) :
    ∀ v ∈ c.filePartitionValues, v.dataFileId = f.dataFileId → v.tableId = tableId := by
  have hsame : f.leafFile ∈ (members spec tableId floorSnap c t).map DataFile.leafFile ↔
      f.leafFile ∈ (c.dataFiles.rows.filter
        (inLeaf spec tableId floorSnap (fileValues c) t)).map DataFile.leafFile :=
    (hleaf.files.symm.trans (hperm.symm.trans selectLeafFiles_perm)).mem_iff
  rw [members, leafFile_mem_iff hf, leafFile_mem_iff hf] at hsame
  rcases hin with hown | hall
  · exact eq_table_of_holds (inLeaf_iff.1 hown).2 (inLeaf_iff.1 (hsame.1 hown)).2
  · exact eq_table_of_holds (inLeaf_iff.1 (hsame.2 hall)).2 (inLeaf_iff.1 hall).2

theorem addressable_of_manifestAgrees (hlive : spec.Live) {rows : List EnumRow} {listing : Listing}
    (hrows : rows.Perm (enumerationRows tableId c))
    (hlisting : classifyEnumeration spec cutoff floorSnap maxFiles maxRot rows = .ok listing)
    (h : ManifestAgrees spec tableId cutoff floorSnap maxFiles c listing.leaves) :
    Addressable spec tableId cutoff floorSnap maxFiles c := by
  obtain ⟨outcomes, hrun, _⟩ := h.processed
  constructor
  · intro t hbelow hmembers
    obtain ⟨leaf, hmem, hleaf⟩ := exists_leaf hlive hrows hlisting hbelow hmembers
    exact readable_of_dropManifest hlive hrun hmem hleaf
  · intro t hbelow hmembers hsize f hf hin
    obtain ⟨leaf, hmem, hleaf⟩ := exists_leaf hlive hrows hlisting hbelow hmembers
    obtain ⟨tupleMap, hread, _, tuple, htuple, hperm⟩ :=
      h.accepted leaf hmem (hleaf.oversized_eq_false.2 hsize)
    rw [hleaf.entry] at hread
    obtain ⟨_, rfl⟩ := (tupleFromValues_eq_ok hlive t).1 hread
    obtain rfl := Except.ok.inj (leafTuple_tupleMap.symm.trans htuple)
    exact undisturbed_of_perm hleaf hperm hf hin

/-- **Planner and executor.** For every catalog, live spec, cutoff and floor for which the listing
    emits its leaves: the executor reads back every leaf, selects the files that the planner found, and
    gets through the manifest, exactly when every tuple of a planned file can be read back and no
    partition value of a file of a leaf is under another table. -/
theorem manifestAgrees_iff {info : List ℕ} {cols : List PartitionKey} {rows : List EnumRow}
    {listing : Listing} (hspec : resolveLiveSpec info cols = .ok spec)
    (hrows : rows.Perm (enumerationRows tableId c))
    (hlist : listDroppablePartitions spec tableId cutoff floorSnap maxFiles maxRot c rows
      = .ok listing) :
    ManifestAgrees spec tableId cutoff floorSnap maxFiles c listing.leaves ↔
      Addressable spec tableId cutoff floorSnap maxFiles c := by
  have hlive := resolveLiveSpec_live hspec
  unfold listDroppablePartitions at hlist
  obtain ⟨_, hunageable, hlisting⟩ := bind_eq_ok.1 hlist
  exact ⟨addressable_of_manifestAgrees hlive hrows hlisting,
    manifestAgrees_of_addressable hlive hunageable fun leaf hmem =>
      leafOf_of_mem hlive hrows hlisting hmem⟩

/-! ## A leaf that cannot be read back -/

def cityKeys : List PartitionKey :=
  [⟨0, 19, "identity", some "city"⟩, ⟨1, 20, "year", some "timestamp"⟩,
    ⟨2, 20, "month", some "timestamp"⟩, ⟨3, 20, "day", some "timestamp"⟩]

/-- One file, of August 1st, 2026. -/
def cityFile (city : String) : Catalog where
  snapshots := ⟨[⟨3, 0, 1, 20, 8⟩], by decide⟩
  dataFiles := ⟨[⟨7, 1, 3, none, "a.parquet", true, some 5, some 4, some 40⟩], by decide⟩
  deleteFiles := Table.empty
  filesScheduledForDeletion := []
  fileColumnStats := []
  filePartitionValues :=
    [⟨7, 1, 0, some city⟩, ⟨7, 1, 1, some "2026"⟩, ⟨7, 1, 2, some "8"⟩, ⟨7, 1, 3, some "1"⟩]
  fileVariantStats := []
  snapshotChanges := []
  tableStats := []
  versions := ["1.0"]
  cursors := []

/-- Its listing, with the cutoff at September 1st. -/
def listCityFile (city : String) : Except PlanAbort Listing :=
  listDroppablePartitions ⟨5, cityKeys⟩ 1 1788220800000000 10 10000 0 (cityFile city)
    (enumerationRows 1 (cityFile city))

/-- The leaf of that file. -/
def cityLeaf (city partition : String) : Leaf where
  partition := partition
  values := [("city", city), ("year", "2026"), ("month", "8"), ("day", "1")]
  partTs := 1785542400000000
  files := [⟨7, 4, 40, 3⟩]
  oversized := false

theorem berlin_agrees_iff :
    listCityFile "Berlin" = .ok ⟨[cityLeaf "Berlin" "city=Berlin,year=2026,month=8,day=1"], 0, [], 0⟩ ∧
      (ManifestAgrees ⟨5, cityKeys⟩ 1 1788220800000000 10 10000 (cityFile "Berlin")
          [cityLeaf "Berlin" "city=Berlin,year=2026,month=8,day=1"] ↔
        Addressable ⟨5, cityKeys⟩ 1 1788220800000000 10 10000 (cityFile "Berlin")) := by
  have hspec : resolveLiveSpec [5] cityKeys = .ok ⟨5, cityKeys⟩ := by decide +kernel
  have hlist : listCityFile "Berlin"
      = .ok ⟨[cityLeaf "Berlin" "city=Berlin,year=2026,month=8,day=1"], 0, [], 0⟩ := by
    decide +kernel
  exact ⟨hlist, manifestAgrees_iff hspec (List.Perm.refl _) hlist⟩

/-- The planner emits the leaf of New York, of one file; the executor refuses the space in it, before
    it has processed any leaf. -/
theorem newYork_not_agrees :
    resolveLiveSpec [5] cityKeys = .ok ⟨5, cityKeys⟩ ∧
      listCityFile "New York"
        = .ok ⟨[cityLeaf "New York" "city=New York,year=2026,month=8,day=1"], 0, [], 0⟩ ∧
      dropManifest ⟨5, cityKeys⟩ 1 1788220800000000 10 10000 (cityFile "New York")
          [cityLeaf "New York" "city=New York,year=2026,month=8,day=1"]
        = .error (.identityValue "city" "New York") ∧
      ¬ ManifestAgrees ⟨5, cityKeys⟩ 1 1788220800000000 10 10000 (cityFile "New York")
          [cityLeaf "New York" "city=New York,year=2026,month=8,day=1"] := by
  have hdrop : dropManifest ⟨5, cityKeys⟩ 1 1788220800000000 10 10000 (cityFile "New York")
      [cityLeaf "New York" "city=New York,year=2026,month=8,day=1"]
        = .error (.identityValue "city" "New York") := by decide +kernel
  refine ⟨by decide +kernel, by decide +kernel, hdrop, fun h => ?_⟩
  obtain ⟨outcomes, hrun, _⟩ := h.processed
  rw [hdrop] at hrun
  cases hrun

end Millpond.Maintenance
