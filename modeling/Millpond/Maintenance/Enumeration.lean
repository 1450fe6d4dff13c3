import Millpond.Maintenance.PartitionTuples
import Millpond.Lib.Groups
import Mathlib.Data.List.Dedup

set_option autoImplicit false

/-! # The planner and the executor of a drop campaign

`list-droppable-partitions` pivots the partition values of every live file into one row a file and
sorts the rows into leaves. `drop-partitions --manifest` reads the leaves back and selects the files
of each afresh, by a query of its own. The cursor guard and the drop of the selected files come after
the selection and are left out here. -/

namespace Millpond.Maintenance

/-! ## `_enumeration_sql` -/

/-- A row of the enumeration; `column` has the pivoted columns `k{index}`. -/
structure EnumRow where
  dataFileId : ℕ
  column : ℕ → Option String
  fpvRows : ℕ
  fpvKeys : ℕ
  recordCount : Option ℤ
  fileSizeBytes : Option ℤ
  beginSnapshot : ℕ
  partitionId : Option ℕ

/-- `max(CASE WHEN fpv.partition_key_index = .. THEN fpv.partition_value END)`; NULLs do not count. -/
def pivot (values : List PartitionValue) (index : ℕ) : Option String :=
  ((values.filter fun v => v.partitionKeyIndex = index).filterMap PartitionValue.partitionValue).max?

/-- The partition values of a file that are under the table. -/
def ownValues (tableId : ℕ) (c : Catalog) (dataFileId : ℕ) : List PartitionValue :=
  c.filePartitionValues.filter fun v => v.tableId = tableId ∧ v.dataFileId = dataFileId

/-- One row a file. -/
def enumRow (tableId : ℕ) (c : Catalog) (f : DataFile) : EnumRow :=
  let values := ownValues tableId c f.dataFileId
  { dataFileId := f.dataFileId
    column := pivot values
    fpvRows := values.length
    fpvKeys := (values.map PartitionValue.partitionKeyIndex).dedup.length
    recordCount := f.recordCount
    fileSizeBytes := f.fileSizeBytes
    beginSnapshot := f.beginSnapshot
    partitionId := f.partitionId }

/-- The rows of `_enumeration_sql`; the query does not order them. -/
def enumerationRows (tableId : ℕ) (c : Catalog) : List EnumRow :=
  (c.dataFiles.rows.filter fun f => f.tableId = tableId ∧ f.endSnapshot = none ∧
    !(ownValues tableId c f.dataFileId).isEmpty).map (enumRow tableId c)

/-! ## `_classify_enumeration` -/

/-- `_Leaf`. `values` is in the order of the keys. -/
structure Leaf where
  partition : String
  values : List (String × String)
  partTs : ℤ
  files : List LeafFile
  oversized : Bool
deriving DecidableEq, Repr

/-- Exactly the spec's key set, one value each. -/
def EnumRow.sane (spec : PartitionSpec) (row : EnumRow) : Bool :=
  row.fpvRows = spec.keys.length ∧ row.fpvKeys = spec.keys.length ∧
    ∀ k ∈ spec.keys, (row.column k.index).isSome

/-- `part_ts` of a row. -/
def EnumRow.partTs (spec : PartitionSpec) (row : EnumRow) : Except PlanAbort (Option ℤ) :=
  if row.sane spec then composePartTs spec row.column else .ok none

/-- `str(values[k.index])`. -/
def EnumRow.text (row : EnumRow) (index : ℕ) : String := (row.column index).getD "None"

/-- `bucket_key`. -/
def EnumRow.bucketKey (spec : PartitionSpec) (row : EnumRow) : List String :=
  spec.keys.map fun k => row.text k.index

def EnumRow.leafFile (row : EnumRow) : LeafFile :=
  ⟨row.dataFileId, row.recordCount.getD 0, row.fileSizeBytes.getD 0, row.beginSnapshot⟩

/-- The leaf of the first row of a bucket. -/
def firstOfLeaf (spec : PartitionSpec) (row : EnumRow × ℤ) : Leaf where
  partition := canonicalLeafStr spec row.1.text
  values := spec.keys.map fun k => (k.address, row.1.text k.index)
  partTs := row.2
  files := [row.1.leafFile]
  oversized := false

/-- `leaf.files.append`. -/
def Leaf.append (leaf : Leaf) (row : EnumRow × ℤ) : Leaf :=
  { leaf with files := leaf.files ++ [row.1.leafFile] }

/-- The variables of the loop. -/
structure Classification where
  rot : ℕ
  rotSamples : List ℕ
  floored : ℕ
  oldSpecBlocking : List (ℕ × Option ℤ)
  buckets : List (List String × Leaf)

/-- `rot += 1`, with a sample. -/
def Classification.addRot (st : Classification) (row : EnumRow) : Classification :=
  { st with
    rot := st.rot + 1
    rotSamples :=
      if st.rotSamples.length < 10 then st.rotSamples ++ [row.dataFileId] else st.rotSamples }

/-- A sane row of the live spec. -/
def Classification.addSane (spec : PartitionSpec) (cutoff floorSnap : ℤ) (st : Classification)
    (row : EnumRow) (partTs : ℤ) : Classification :=
  if cutoff ≤ partTs then st
  else if floorSnap < row.beginSnapshot then { st with floored := st.floored + 1 }
  else
    { st with
      buckets := Groups.add (fun r => r.1.bucketKey spec) (firstOfLeaf spec) Leaf.append
        (row, partTs) st.buckets }

/-- The body of the loop, once `part_ts` is composed. No time is no proof of being out of the
    window. -/
def Classification.add (spec : PartitionSpec) (cutoff floorSnap : ℤ) (st : Classification)
    (row : EnumRow) (partTs : Option ℤ) : Classification :=
  if row.partitionId ≠ some spec.partitionId then
    if partTs.all (· < cutoff) then
      { st with oldSpecBlocking := st.oldSpecBlocking ++ [(row.dataFileId, partTs)] }
    else st
  else partTs.elim (st.addRot row) (st.addSane spec cutoff floorSnap row)

def classifyRow (spec : PartitionSpec) (cutoff floorSnap : ℤ) (st : Classification) (row : EnumRow) :
    Except PlanAbort Classification := do
  let partTs ← row.partTs spec
  pure (st.add spec cutoff floorSnap row partTs)

/-- What a listing returns. -/
structure Listing where
  leaves : List Leaf
  rotFiles : ℕ
  rotSamples : List ℕ
  flooredFiles : ℕ
deriving DecidableEq, Repr

/-- `(lf.part_ts, lf.partition)` in order. -/
def Leaf.before (a b : Leaf) : Bool :=
  a.partTs < b.partTs ∨ a.partTs = b.partTs ∧ a.partition ≤ b.partition

def Leaf.mark (maxFiles : ℤ) (leaf : Leaf) : Leaf :=
  { leaf with oversized := decide (maxFiles < leaf.files.length) }

/-- `_classify_enumeration`. -/
def classifyEnumeration (spec : PartitionSpec) (cutoff floorSnap maxFiles maxRot : ℤ)
    (rows : List EnumRow) : Except PlanAbort Listing := do
  let st ← rows.foldlM (classifyRow spec cutoff floorSnap) ⟨0, [], 0, [], []⟩
  if !st.oldSpecBlocking.isEmpty then
    throw (.oldSpec st.oldSpecBlocking.length (st.oldSpecBlocking.take 3))
  else if maxRot < st.rot then throw (.rot st.rot st.rotSamples)
  else
    let leaves := (st.buckets.map Prod.snd).insertionSort fun a b => a.before b
    pure ⟨leaves.map (Leaf.mark maxFiles), st.rot, st.rotSamples, st.floored⟩

/-! ## `list-droppable-partitions` -/

/-- Live files with no partition values at all, whatever table these are under. -/
def unageableFiles (tableId : ℕ) (c : Catalog) : List DataFile :=
  c.dataFiles.rows.filter fun f => f.tableId = tableId ∧ f.endSnapshot = none ∧
    !c.filePartitionValues.any fun v => v.dataFileId = f.dataFileId

/-- `_assert_no_unageable_files`. -/
def assertNoUnageableFiles (tableId : ℕ) (c : Catalog) : Except PlanAbort Unit :=
  let files := unageableFiles tableId c
  if files.isEmpty then .ok ⟨⟩
  else .error (.unageable files.length ((files.take 5).map DataFile.dataFileId))

/-- `list_droppable_partitions`, with the rows as the enumeration returned them. -/
def listDroppablePartitions (spec : PartitionSpec) (tableId : ℕ)
    (cutoff floorSnap maxFiles maxRot : ℤ) (c : Catalog) (rows : List EnumRow) :
    Except PlanAbort Listing := do
  assertNoUnageableFiles tableId c
  classifyEnumeration spec cutoff floorSnap maxFiles maxRot rows

/-! ## `drop-partitions --manifest` -/

/-- `entry["values"]`: a JSON object of strings. -/
def Leaf.entry (leaf : Leaf) : List (String × TupleValue) :=
  leaf.values.map fun value => (value.1, .str value.2)

/-- The parameters of `_leaf_selection_sql`. -/
def leafTuple (spec : PartitionSpec) (floorSnap : ℤ) (tupleMap : TupleMap) :
    Except PlanAbort LeafTuple := do
  let keys ← spec.keys.mapM fun k =>
    ((tupleMap k.index).map fun value => (k.index, value)).elim (.error .keyError) .ok
  pure ⟨spec.partitionId, keys, floorSnap⟩

/-- What the loop makes of a leaf. -/
inductive LeafOutcome where
  | notBelow
  | oversized (n : ℕ)
  | nothingLive
  | selected (files : List LeafFile)
deriving DecidableEq, Repr

/-- One turn of the loop over the work list, up to the selection. -/
def processLeaf (spec : PartitionSpec) (tableId : ℕ) (cutoff floorSnap maxFiles : ℤ) (c : Catalog)
    (tupleMap : TupleMap) : Except PlanAbort LeafOutcome := do
  let partTs ← composePartTs spec tupleMap
  if partTs.all (cutoff ≤ ·) then pure .notBelow
  else do
    let tuple ← leafTuple spec floorSnap tupleMap
    let files := selectLeafFiles tuple tableId c
    if maxFiles < files.length then pure (.oversized files.length)
    else if files.isEmpty then pure .nothingLive
    else pure (.selected files)

/-- `drop_partitions` over the leaves of a manifest: the whole work list is read before the first
    leaf is processed. -/
def dropManifest (spec : PartitionSpec) (tableId : ℕ) (cutoff floorSnap maxFiles : ℤ) (c : Catalog)
    (leaves : List Leaf) : Except PlanAbort (List LeafOutcome) := do
  assertNoUnageableFiles tableId c
  let work ← leaves.mapM fun leaf => tupleFromValues spec leaf.entry
  work.mapM (processLeaf spec tableId cutoff floorSnap maxFiles c)

/-! ## Files that hold a tuple -/

/-- The tuple `t` as the pairs of the spec. -/
def PartitionSpec.tuple (spec : PartitionSpec) (t : ℕ → String) : List (ℕ × String) :=
  spec.keys.map fun k => (k.index, t k.index)

/-- As many values as the tuple has keys, and for each key its value. -/
def holds (tuple : List (ℕ × String)) (values : List PartitionValue) : Bool :=
  values.length = tuple.length ∧ ∀ key ∈ tuple, ∃ v ∈ values,
    v.partitionKeyIndex = key.1 ∧ v.partitionValue = some key.2

variable {tuple : List (ℕ × String)} {values : List PartitionValue}

theorem tuple_keys_nodup {spec : PartitionSpec} (h : spec.Live) (t : ℕ → String) :
    ((spec.tuple t).map Prod.fst).Nodup := by
  rw [PartitionSpec.tuple, List.map_map]
  exact h.indexes

theorem holds_iff : holds tuple values = true ↔ values.length = tuple.length ∧
    ∀ key ∈ tuple, ∃ v ∈ values, v.partitionKeyIndex = key.1 ∧ v.partitionValue = some key.2 := by
  simp [holds]

/-- The values are the tuple: a value more or less, or one twice, and the count is off. -/
theorem perm_of_holds (hnodup : (tuple.map Prod.fst).Nodup) (h : holds tuple values = true) :
    (tuple.map fun key => (key.1, some key.2)).Perm
      (values.map fun v => (v.partitionKeyIndex, v.partitionValue)) := by
  obtain ⟨hlength, hall⟩ := holds_iff.1 h
  have hpairs : (tuple.map fun key => (key.1, some key.2)).Nodup := by
    refine List.Nodup.of_map Prod.fst ?_
    rw [List.map_map]
    exact hnodup
  have hsub : (tuple.map fun key => (key.1, some key.2)).Subperm
      (values.map fun v => (v.partitionKeyIndex, v.partitionValue)) := by
    refine List.subperm_of_subset hpairs fun pair hpair => ?_
    obtain ⟨key, hkey, rfl⟩ := List.mem_map.1 hpair
    obtain ⟨v, hv, hindex, hvalue⟩ := hall key hkey
    exact List.mem_map.2 ⟨v, hv, by rw [hindex, hvalue]⟩
  refine hsub.perm_of_length_le ?_
  rw [List.length_map, List.length_map, hlength]

/-- A value is there exactly when the tuple has it. -/
theorem exists_value_iff (hnodup : (tuple.map Prod.fst).Nodup) (h : holds tuple values = true)
    {index : ℕ} {value : String} :
    (∃ v ∈ values, v.partitionKeyIndex = index ∧ v.partitionValue = some value) ↔
      (index, value) ∈ tuple := by
  constructor
  · rintro ⟨v, hv, rfl, hvalue⟩
    obtain ⟨key, hkey, heq⟩ := List.mem_map.1
      ((perm_of_holds hnodup h).mem_iff.2 (List.mem_map.2 ⟨v, hv, rfl⟩))
    obtain ⟨hindex, hkeyValue⟩ := Prod.mk.inj heq
    rw [hvalue] at hkeyValue
    rwa [← hindex, ← Option.some.inj hkeyValue]
  · exact fun hmem => (holds_iff.1 h).2 _ hmem

theorem mem_pivoted {index : ℕ} {value : String} :
    value ∈ (values.filter fun v => v.partitionKeyIndex = index).filterMap
        PartitionValue.partitionValue ↔
      ∃ v ∈ values, v.partitionKeyIndex = index ∧ v.partitionValue = some value := by
  simp only [List.mem_filterMap, List.mem_filter, decide_eq_true_eq, and_assoc]

theorem exists_of_pivot {index : ℕ} {value : String} (h : pivot values index = some value) :
    ∃ v ∈ values, v.partitionKeyIndex = index ∧ v.partitionValue = some value :=
  mem_pivoted.1 (List.max?_mem h)

/-- The maximum of the one value there is. -/
theorem pivot_of_holds (hnodup : (tuple.map Prod.fst).Nodup) (h : holds tuple values = true)
    {key : ℕ × String} (hkey : key ∈ tuple) : pivot values key.1 = some key.2 := by
  rw [pivot, List.max?_eq_some_iff]
  constructor
  · exact mem_pivoted.2 ((exists_value_iff hnodup h).2 hkey)
  · intro value hvalue
    have hmem : (key.1, value) ∈ tuple := (exists_value_iff hnodup h).1 (mem_pivoted.1 hvalue)
    have heq := List.inj_on_of_nodup_map hnodup hmem hkey rfl
    exact (congrArg Prod.snd heq).le

variable {spec : PartitionSpec} {tableId : ℕ} {c : Catalog} {f : DataFile}

/-- A file that holds a tuple is sane, and its columns are the tuple. -/
theorem sane_of_holds (hlive : spec.Live) {t : ℕ → String}
    (h : holds (spec.tuple t) (ownValues tableId c f.dataFileId) = true) :
    (enumRow tableId c f).sane spec = true ∧
      ∀ k ∈ spec.keys, (enumRow tableId c f).column k.index = some (t k.index) := by
  have hnodup := tuple_keys_nodup hlive t
  have hcolumn : ∀ k ∈ spec.keys, (enumRow tableId c f).column k.index = some (t k.index) := by
    intro k hk
    have hkey : (k.index, t k.index) ∈ spec.tuple t := List.mem_map.2 ⟨k, hk, rfl⟩
    exact pivot_of_holds hnodup h hkey
  have hlength : (ownValues tableId c f.dataFileId).length = spec.keys.length := by
    rw [(holds_iff.1 h).1, PartitionSpec.tuple, List.length_map]
  have hindexes : ((ownValues tableId c f.dataFileId).map PartitionValue.partitionKeyIndex).Nodup := by
    have hperm := (perm_of_holds hnodup h).map Prod.fst
    rw [List.map_map, List.map_map] at hperm
    exact hperm.nodup_iff.1 hnodup
  have hkeys : (enumRow tableId c f).fpvKeys = spec.keys.length := by
    show (((ownValues tableId c f.dataFileId).map PartitionValue.partitionKeyIndex).dedup).length = _
    rw [hindexes.dedup, List.length_map, hlength]
  refine ⟨?_, hcolumn⟩
  simp only [EnumRow.sane, decide_eq_true_eq]
  exact ⟨hlength, hkeys, fun k hk => by rw [hcolumn k hk]; rfl⟩

/-- A sane file holds the tuple of its columns. -/
theorem holds_of_sane (h : (enumRow tableId c f).sane spec = true) :
    holds (spec.tuple (enumRow tableId c f).text) (ownValues tableId c f.dataFileId) = true := by
  simp only [EnumRow.sane, decide_eq_true_eq] at h
  refine holds_iff.2 ⟨?_, fun key hkey => ?_⟩
  · rw [PartitionSpec.tuple, List.length_map]
    exact h.1
  · obtain ⟨k, hk, rfl⟩ := List.mem_map.1 hkey
    obtain ⟨value, hvalue⟩ := Option.isSome_iff_exists.1 (h.2.2 k hk)
    obtain ⟨v, hv, hindex, hv'⟩ := exists_of_pivot hvalue
    refine ⟨v, hv, hindex, ?_⟩
    rw [hv', EnumRow.text, hvalue]
    rfl

/-! ## The buckets of a classification -/

variable {cutoff floorSnap maxFiles maxRot : ℤ}

/-- What a row of an instant has to be to go into a bucket. -/
def EnumRow.fits (spec : PartitionSpec) (cutoff floorSnap : ℤ) (row : EnumRow) (partTs : ℤ) : Bool :=
  row.partitionId = some spec.partitionId ∧ partTs < cutoff ∧ (row.beginSnapshot : ℤ) ≤ floorSnap

/-- The row and its instant, when it goes into a bucket. -/
def EnumRow.candidate (spec : PartitionSpec) (cutoff floorSnap : ℤ) (row : EnumRow) :
    Option (EnumRow × ℤ) :=
  ((row.partTs spec).toOption.join.filter (row.fits spec cutoff floorSnap)).map (row, ·)

/-- The buckets of some candidates. -/
def leafBuckets (spec : PartitionSpec) (candidates : List (EnumRow × ℤ)) :
    List (List String × Leaf) :=
  Groups.collect (fun r => r.1.bucketKey spec) (firstOfLeaf spec) Leaf.append candidates

theorem fits_iff {row : EnumRow} {partTs : ℤ} : row.fits spec cutoff floorSnap partTs = true ↔
    row.partitionId = some spec.partitionId ∧ partTs < cutoff ∧
      (row.beginSnapshot : ℤ) ≤ floorSnap := by
  simp [EnumRow.fits]

theorem candidate_of_none {row : EnumRow} (h : row.partTs spec = .ok none) :
    row.candidate spec cutoff floorSnap = none := by
  rw [EnumRow.candidate, h]
  rfl

theorem candidate_of_some {row : EnumRow} {partTs : ℤ} (h : row.partTs spec = .ok (some partTs)) :
    row.candidate spec cutoff floorSnap
      = if row.fits spec cutoff floorSnap partTs then some (row, partTs) else none := by
  rw [EnumRow.candidate, h]
  show ((some partTs).filter (row.fits spec cutoff floorSnap)).map (row, ·) = _
  rw [Option.filter_some]
  split <;> rfl

theorem candidate_eq_some {row : EnumRow} {r : EnumRow × ℤ} :
    row.candidate spec cutoff floorSnap = some r ↔
      row = r.1 ∧ row.partTs spec = .ok (some r.2) ∧ row.fits spec cutoff floorSnap r.2 = true := by
  obtain ⟨row', ts'⟩ := r
  cases hts : row.partTs spec with
  | error e => simp [EnumRow.candidate, hts, Except.toOption]
  | ok partTs =>
      cases partTs with
      | none => simp [candidate_of_none hts]
      | some ts =>
          rw [candidate_of_some hts]
          constructor
          · intro h
            split_ifs at h with hfits
            obtain ⟨rfl, rfl⟩ := Prod.mk.inj (Option.some.inj h)
            exact ⟨rfl, rfl, hfits⟩
          · rintro ⟨rfl, heq, hfits⟩
            obtain rfl := Option.some.inj (Except.ok.inj heq)
            exact if_pos hfits

/-- One row adds to the buckets what it is a candidate for. -/
theorem add_buckets {st : Classification} {row : EnumRow} {partTs : Option ℤ}
    (h : row.partTs spec = .ok partTs) :
    (st.add spec cutoff floorSnap row partTs).buckets
      = (row.candidate spec cutoff floorSnap).elim st.buckets fun r =>
          Groups.add (fun r => r.1.bucketKey spec) (firstOfLeaf spec) Leaf.append r st.buckets := by
  unfold Classification.add
  cases partTs with
  | none =>
      rw [candidate_of_none h]
      split_ifs <;> rfl
  | some ts =>
      rw [candidate_of_some h]
      by_cases hlive : row.partitionId = some spec.partitionId
      · rw [if_neg (not_not.2 hlive), Option.elim_some, Classification.addSane]
        by_cases hcut : cutoff ≤ ts
        · rw [if_pos hcut, if_neg fun hfits => not_lt.2 hcut (fits_iff.1 hfits).2.1]
          rfl
        · rw [if_neg hcut]
          by_cases hfloor : floorSnap < row.beginSnapshot
          · rw [if_pos hfloor, if_neg fun hfits => not_le.2 hfloor (fits_iff.1 hfits).2.2]
            rfl
          · rw [if_neg hfloor, if_pos (fits_iff.2 ⟨hlive, not_le.1 hcut, not_lt.1 hfloor⟩)]
            rfl
      · rw [if_pos hlive, if_neg fun hfits => hlive (fits_iff.1 hfits).1]
        split_ifs <;> rfl

/-- The buckets are those of the candidates among the rows gone by. -/
def Classification.Bucketed (spec : PartitionSpec) (cutoff floorSnap : ℤ) (done : List EnumRow)
    (st : Classification) : Prop :=
  st.buckets = leafBuckets spec (done.filterMap (EnumRow.candidate spec cutoff floorSnap))

theorem classifyRow_bucketed {done : List EnumRow} {row : EnumRow} {st st' : Classification}
    (hst : st.Bucketed spec cutoff floorSnap done)
    (h : classifyRow spec cutoff floorSnap st row = .ok st') :
    st'.Bucketed spec cutoff floorSnap (done ++ [row]) := by
  obtain ⟨partTs, hts, hst'⟩ := bind_eq_ok.1 h
  obtain rfl := Except.ok.inj hst'
  show (st.add spec cutoff floorSnap row partTs).buckets = _
  rw [add_buckets hts, List.filterMap_append, hst]
  cases hcandidate : EnumRow.candidate spec cutoff floorSnap row with
  | none => simp [hcandidate]
  | some r => simp [hcandidate, leafBuckets, Groups.collect]

/-- The loop buckets the candidates among its rows. -/
theorem classifyRows_bucketed {rows : List EnumRow} {st : Classification}
    (h : rows.foldlM (classifyRow spec cutoff floorSnap) ⟨0, [], 0, [], []⟩ = .ok st) :
    st.Bucketed spec cutoff floorSnap rows := by
  have hstart : Classification.Bucketed spec cutoff floorSnap [] ⟨0, [], 0, [], []⟩ := rfl
  exact foldlM_ok_induction (fun _ _ _ _ hst hrow => classifyRow_bucketed hst hrow) hstart h

theorem foldl_append (leaf : Leaf) (rows : List (EnumRow × ℤ)) :
    rows.foldl Leaf.append leaf
      = { leaf with files := leaf.files ++ rows.map fun r => r.1.leafFile } := by
  induction rows generalizing leaf with
  | nil => simp
  | cons r rest ih => rw [List.foldl_cons, ih]; simp [Leaf.append]

/-- The first row of a bucket with the files of all of them. -/
theorem fromMembers_leaf {first : EnumRow × ℤ} {rest : List (EnumRow × ℤ)} :
    Groups.fromMembers (firstOfLeaf spec) Leaf.append (first :: rest)
      = some { firstOfLeaf spec first with
          files := (first :: rest).map fun r => r.1.leafFile } := by
  rw [Groups.fromMembers, foldl_append]
  rfl

/-- The leaves of a listing are the marked buckets. -/
theorem mem_leaves {rows : List EnumRow} {listing : Listing} {leaf : Leaf}
    (h : classifyEnumeration spec cutoff floorSnap maxFiles maxRot rows = .ok listing) :
    leaf ∈ listing.leaves ↔ ∃ bucket ∈
      leafBuckets spec (rows.filterMap (EnumRow.candidate spec cutoff floorSnap)),
      bucket.2.mark maxFiles = leaf := by
  unfold classifyEnumeration at h
  obtain ⟨st, hst, hrest⟩ := bind_eq_ok.1 h
  split_ifs at hrest with hold hrot
  obtain rfl := Except.ok.inj hrest
  rw [← classifyRows_bucketed hst]
  simp only [List.mem_map, List.mem_insertionSort, exists_exists_and_eq_and]

end Millpond.Maintenance
