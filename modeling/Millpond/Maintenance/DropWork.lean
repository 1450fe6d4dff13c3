import Millpond.Lib.Options
import Millpond.Lib.Trimming
import Millpond.Maintenance.Campaign
import Millpond.Maintenance.Classification
import Millpond.Maintenance.CompactionGroups
import Millpond.Maintenance.PlanAgreement

set_option autoImplicit false

/-! # The work list of a drop campaign

How `drop_partitions` comes by its cutoff and its work list: one tuple from the command line, or the
leaves of a manifest that `list-droppable-partitions` printed. -/

namespace Millpond.Maintenance

/-! ## The cutoff -/

/-- What the set-up of a campaign aborts with. Instants and ages are in microseconds. -/
inductive WorkAbort where
  | plan (e : PlanAbort)
  | sources
  | cutoffWithManifest
  | twoCutoffs
  | noCutoff
  | cutoffText (text : String)
  | unaligned (cutoff : ℤ)
  | young (age : ℤ)
  | component (part text : String)
  | repeatedKey (name : String)
  | notBelow (partTs : Option ℤ)
  | oldSpecLeaf (n : ℕ)
  | unreadableManifest
  | notAManifest
  | manifestKeys (missing : List String)
  | manifestTable (name : String)
  | manifestIds (tableId partitionId : Option ℕ)
deriving DecidableEq, Repr

def hourMicros : ℤ := 3600000000

def dayMicros : ℤ := 24 * hourMicros

/-- `_DROP_MIN_CUTOFF_AGE_DAYS`. -/
def dropMinCutoffAge : ℤ := 7 * dayMicros

/-- `_PartitionSpec.grain`. -/
def PartitionSpec.grain (spec : PartitionSpec) : ℤ :=
  if "hour" ∈ spec.keys.map PartitionKey.transform then hourMicros else dayMicros

/-- `cutoff.replace(..)`, down to the grain. -/
def truncated (grain cutoff : ℤ) : ℤ := cutoff - cutoff % grain

/-- `_check_cutoff`. -/
def checkCutoff (now cutoff grain : ℤ) (forceYoung : Bool) : Except WorkAbort Unit :=
  if truncated grain cutoff ≠ cutoff then .error (.unaligned cutoff)
  else if now - cutoff < dropMinCutoffAge ∧ forceYoung = false then .error (.young (now - cutoff))
  else .ok ⟨⟩

/-- `datetime.fromisoformat`, a naive one in UTC, and `isoformat`. -/
structure IsoFormat where
  read : String → Option ℤ
  write : ℤ → String

/-- What both sources of the cutoff look like on the command line. -/
structure CutoffArgs where
  cutoff : String
  retentionDays : Option ℤ
  forceYoung : Bool

/-- `_resolve_cutoff`. -/
def resolveCutoff (iso : IsoFormat) (now grain : ℤ) (args : CutoffArgs) : Except WorkAbort ℤ :=
  if args.cutoff ≠ "" then
    if args.retentionDays.isSome then .error .twoCutoffs
    else match iso.read args.cutoff with
      | none => .error (.cutoffText args.cutoff)
      | some cutoff => (checkCutoff now cutoff grain args.forceYoung).map fun _ => cutoff
  else match args.retentionDays with
    | none => .error .noCutoff
    | some days =>
        let cutoff := truncated grain (now - days * dayMicros)
        (checkCutoff now cutoff grain args.forceYoung).map fun _ => cutoff

/-! ## One tuple -/

/-- A component of a tuple's text: what is before its first `=`, stripped, and what is after it. -/
def readComponent (text : String) (part : List Char) : Except WorkAbort (String × String) :=
  let name := trim isSpace (part.takeWhile (· != '='))
  if '=' ∉ part ∨ name = [] then .error (.component (String.ofList part) text)
  else .ok (String.ofList name, String.ofList (part.dropWhile (· != '=')).tail)

/-- The loop over the components; `seen` are the ones before. -/
def readComponents (text : String) :
    List (String × String) → List (List Char) → Except WorkAbort (List (String × String))
  | seen, [] => .ok seen
  | seen, part :: rest => do
      let item ← readComponent text part
      if item.1 ∈ seen.map Prod.fst then .error (.repeatedKey item.1)
      else readComponents text (seen ++ [item]) rest

/-- `_parse_partition_tuple`. -/
def parsePartitionTuple (spec : PartitionSpec) (text : String) : Except WorkAbort TupleMap := do
  let items ← readComponents text [] (text.toList.splitOn ',')
  (tupleFromValues spec (items.map fun item => (item.1, .str item.2))).mapError .plan

/-- The live files of another spec that `_old_spec_leaf_check` counts. -/
def oldSpecFiles (spec : PartitionSpec) (tableId : ℕ) (tupleMap : TupleMap) (c : Catalog) : List DataFile :=
  c.dataFiles.rows.filter fun f => decide (f.tableId = tableId ∧ f.endSnapshot = none ∧
    f.partitionId ≠ some spec.partitionId) && spec.keys.all fun k => c.filePartitionValues.any fun v =>
      decide (v.dataFileId = f.dataFileId ∧ v.partitionKeyIndex = k.index) &&
        v.partitionValue.any fun value => tupleMap k.index == some value

/-- The work of `--partition`. -/
def partitionWork (spec : PartitionSpec) (tableId : ℕ) (cutoff : ℤ) (c : Catalog) (text : String) :
    Except WorkAbort (List (String × TupleMap)) := do
  let tupleMap ← parsePartitionTuple spec text
  let partTs ← (composePartTs spec tupleMap).mapError .plan
  if partTs.all (cutoff ≤ ·) then .error (.notBelow partTs)
  else
    let old := oldSpecFiles spec tableId tupleMap c
    if !old.isEmpty then .error (.oldSpecLeaf old.length)
    else .ok [(canonicalLeafStr spec fun i => (tupleMap i).getD "", tupleMap)]

/-! ## A manifest -/

/-- An entry of `leaves`. -/
structure ManifestLeaf where
  partition : String
  values : List (String × TupleValue)
deriving DecidableEq, Repr

/-- The keys of a manifest that the drop reads, as far as they are there. -/
structure Manifest where
  tool : Option String
  manifestVersion : Option ℤ
  table : Option String
  tableId : Option ℕ
  partitionId : Option ℕ
  cutoff : Option String
  leaves : Option (List ManifestLeaf)
deriving DecidableEq, Repr

/-- `_load_manifest`, of the contents of a file: its table, cutoff and leaves. -/
def loadManifest (contents : Option Manifest) :
    Except WorkAbort (Manifest × String × String × List ManifestLeaf) :=
  match contents with
  | none => .error .unreadableManifest
  | some m =>
      if m.tool ≠ some "list-droppable-partitions" ∨ m.manifestVersion ≠ some 1 then .error .notAManifest
      else match m.table, m.cutoff, m.leaves with
        | some table, some cutoff, some leaves => .ok (m, table, cutoff, leaves)
        | table, cutoff, leaves => .error (.manifestKeys
            ([("table", table.isNone), ("cutoff", cutoff.isNone), ("leaves", leaves.isNone)].filterMap
              fun key => if key.2 then some key.1 else none))

/-- The table of a campaign, as the live catalog resolves it. -/
structure CampaignTable where
  name : String
  tableId : ℕ
  spec : PartitionSpec

/-- The cutoff and the work of `--manifest`. -/
def manifestWork (iso : IsoFormat) (now : ℤ) (table : CampaignTable) (forceYoung : Bool)
    (contents : Option Manifest) : Except WorkAbort (ℤ × List (String × TupleMap)) := do
  let (m, name, cutoffText, leaves) ← loadManifest contents
  if name ≠ table.name then .error (.manifestTable name)
  else if m.tableId ≠ some table.tableId ∨ m.partitionId ≠ some table.spec.partitionId then
    .error (.manifestIds m.tableId m.partitionId)
  else match iso.read cutoffText with
    | none => .error (.cutoffText cutoffText)
    | some cutoff => do
        checkCutoff now cutoff table.spec.grain forceYoung
        let work ← leaves.mapM fun entry =>
          ((tupleFromValues table.spec entry.values).mapError .plan).map (entry.partition, ·)
        pure (cutoff, work)

/-- The arguments that name the leaves; an absent text is empty. -/
structure LeafArgs where
  partition : String
  /-- The path, and what is in the file. -/
  manifest : String × Option Manifest

/-- From the arguments of `drop_partitions` to its cutoff and its work. -/
def campaignWork (iso : IsoFormat) (now : ℤ) (table : CampaignTable) (leafArgs : LeafArgs)
    (cutoffArgs : CutoffArgs) (c : Catalog) : Except WorkAbort (ℤ × List (String × TupleMap)) := do
  if leafArgs.partition ≠ "" ↔ leafArgs.manifest.1 ≠ "" then .error .sources
  else if leafArgs.manifest.1 ≠ "" then
    if cutoffArgs.cutoff ≠ "" ∨ cutoffArgs.retentionDays.isSome then .error .cutoffWithManifest
    else manifestWork iso now table cutoffArgs.forceYoung leafArgs.manifest.2
  else do
    let cutoff ← resolveCutoff iso now table.spec.grain cutoffArgs
    let work ← partitionWork table.spec table.tableId cutoff c leafArgs.partition
    pure (cutoff, work)

/-- The manifest that `list_droppable_partitions` prints, as far as the drop reads it. -/
def printedManifest (iso : IsoFormat) (table : CampaignTable) (cutoff : ℤ) (listing : Listing) : Manifest where
  tool := some "list-droppable-partitions"
  manifestVersion := some 1
  table := some table.name
  tableId := some table.tableId
  partitionId := some table.spec.partitionId
  cutoff := some (iso.write cutoff)
  leaves := some (listing.leaves.map fun leaf => ⟨leaf.partition, leaf.entry⟩)

/-! ## Names -/

/-- A name that a tuple's text can address. -/
structure IsPlain (name : String) : Prop where
  nonempty : name ≠ ""
  comma : ',' ∉ name.toList
  equals : '=' ∉ name.toList
  trimmed : Trimmed isSpace name.toList

variable {spec : PartitionSpec} {text : String} {part : List Char} {item : String × String}

theorem readComponent_eq_ok : readComponent text part = .ok item ↔
    '=' ∈ part ∧ trim isSpace (part.takeWhile (· != '=')) ≠ [] ∧
      item = (String.ofList (trim isSpace (part.takeWhile (· != '='))),
        String.ofList (part.dropWhile (· != '=')).tail) := by
  unfold readComponent
  dsimp only
  split_ifs with h
  · refine ⟨fun hok => (by cases hok), fun ⟨hequals, hname, _⟩ => ?_⟩
    exact absurd h (not_or.2 ⟨not_not.2 hequals, hname⟩)
  · obtain ⟨hequals, hname⟩ := not_or.1 h
    exact ⟨fun hok => ⟨not_not.1 hequals, hname, (Except.ok.inj hok).symm⟩,
      fun ⟨_, _, heq⟩ => congrArg Except.ok heq.symm⟩

/-- What is read as a name is plain. -/
theorem isPlain_of_readComponent (hpart : ',' ∉ part) (h : readComponent text part = .ok item) :
    IsPlain item.1 := by
  obtain ⟨-, hname, rfl⟩ := readComponent_eq_ok.1 h
  have hsub : trim isSpace (part.takeWhile (· != '=')) ⊆ part.takeWhile (· != '=') := trim_subset _ _
  constructor
  · intro hempty
    exact hname (String.ofList_eq_empty_iff.1 hempty)
  · rw [String.toList_ofList]
    exact fun hmem => hpart ((List.takeWhile_sublist _).subset (hsub hmem))
  · rw [String.toList_ofList]
    intro hmem
    have hne := List.mem_takeWhile_imp (hsub hmem)
    simp at hne
  · rw [String.toList_ofList]
    exact trimmed_trim _ _

/-- A plain name and a value are read back from their component. -/
theorem readComponent_of_isPlain {name : String} (hname : IsPlain name) (value : String) :
    readComponent text (name ++ "=" ++ value).toList = .ok (name, value) := by
  have hparts : (name ++ "=" ++ value).toList = name.toList ++ '=' :: value.toList := by
    simp [String.toList_append]
  have hall : ∀ c ∈ name.toList, (c != '=') = true := fun c hc => by
    rw [bne_iff_ne]
    rintro rfl
    exact hname.equals hc
  rw [readComponent_eq_ok, hparts, List.takeWhile_append_of_pos hall, List.dropWhile_append_of_pos hall,
    List.takeWhile_cons_of_neg (by simp), List.dropWhile_cons_of_neg (by simp), List.append_nil,
    hname.trimmed.trim_eq]
  refine ⟨List.mem_append_right _ List.mem_cons_self, fun hnil => hname.nonempty ?_, ?_⟩
  · exact String.toList_eq_nil_iff.1 hnil
  · simp

/-- The components of an accepted text, each read on its own, no name twice. -/
theorem readComponents_eq_ok {parts : List (List Char)} {items : List (String × String)} :
    ∀ {seen : List (String × String)}, (seen.map Prod.fst).Nodup →
      (readComponents text seen parts = .ok items ↔
        ∃ new, List.Forall₂ (fun part item => readComponent text part = .ok item) parts new ∧
          items = seen ++ new ∧ (items.map Prod.fst).Nodup) := by
  induction parts with
  | nil =>
      intro seen hseen
      constructor
      · intro h
        obtain rfl := Except.ok.inj h
        exact ⟨[], .nil, (List.append_nil _).symm, hseen⟩
      · rintro ⟨new, hnew, rfl, -⟩
        cases hnew
        rw [List.append_nil]
        rfl
  | cons part rest ih =>
      intro seen hseen
      have hnodup : ∀ item : String × String,
          ((seen ++ [item]).map Prod.fst).Nodup ↔ item.1 ∉ seen.map Prod.fst := fun item => by
        rw [List.map_append, List.map_singleton, List.nodup_append]
        constructor
        · exact fun h hmem => h.2.2 _ hmem _ List.mem_cons_self rfl
        · rintro h
          refine ⟨hseen, List.nodup_singleton _, ?_⟩
          rintro a ha b hb rfl
          exact h (List.mem_singleton.1 hb ▸ ha)
      rw [readComponents, bind_eq_ok]
      constructor
      · rintro ⟨item, hitem, hrest⟩
        split_ifs at hrest with hmem
        obtain ⟨new, hnew, rfl, hall⟩ := (ih ((hnodup item).2 hmem)).1 hrest
        exact ⟨item :: new, .cons hitem hnew, by rw [List.append_assoc]; rfl, hall⟩
      · rintro ⟨_, hnew, rfl, hall⟩
        cases hnew with
        | cons hitem hnew =>
            next item new =>
            have hassoc : seen ++ item :: new = (seen ++ [item]) ++ new := by
              rw [List.append_assoc]
              rfl
            have hmem : item.1 ∉ seen.map Prod.fst := by
              refine (hnodup item).1 ?_
              rw [hassoc, List.map_append] at hall
              exact (List.nodup_append.1 hall).1
            refine ⟨item, hitem, ?_⟩
            rw [if_neg hmem]
            exact (ih ((hnodup item).2 hmem)).2 ⟨new, hnew, hassoc, hall⟩

/-! ## Tuples -/

theorem byName_eq_some {name : String} {k : PartitionKey} (h : spec.byName name = some k) :
    k ∈ spec.keys ∧ k.address = name :=
  ⟨List.mem_reverse.1 (List.mem_of_find?_eq_some h), by simpa using List.find?_some h⟩

/-- The items that a tuple was read from name keys of the spec, and all that it has. -/
theorem tupleItems_names {items : List (String × TupleValue)} :
    ∀ {out out' : TupleMap}, items.foldlM (tupleItem spec) out = .ok out' →
      (∀ item ∈ items, item.1 ∈ spec.keys.map PartitionKey.address) ∧
        ∀ i, (out' i).isSome = true → (out i).isSome = true ∨
          ∃ k ∈ spec.keys, k.index = i ∧ k.address ∈ items.map Prod.fst := by
  induction items with
  | nil =>
      intro out out' h
      obtain rfl := Except.ok.inj h
      exact ⟨fun _ h => absurd h List.not_mem_nil, fun _ h => Or.inl h⟩
  | cons item rest ih =>
      intro out out' h
      rw [List.foldlM_cons, bind_eq_ok] at h
      obtain ⟨next, hitem, hrest⟩ := h
      obtain ⟨hnames, hfound⟩ := ih hrest
      unfold tupleItem at hitem
      split at hitem
      · cases hitem
      · next k hk =>
          obtain ⟨_, -, hvalue⟩ := bind_eq_ok.1 hitem
          obtain ⟨value, -, hnext⟩ := bind_eq_ok.1 hvalue
          obtain rfl := Except.ok.inj hnext
          obtain ⟨hmem, haddress⟩ := byName_eq_some hk
          refine ⟨List.forall_mem_cons.2 ⟨haddress ▸ List.mem_map_of_mem hmem, hnames⟩, fun i hi => ?_⟩
          rcases hfound i hi with hsome | ⟨k', hk', hindex, hin⟩
          · by_cases heq : i = k.index
            · exact Or.inr ⟨k, hmem, heq.symm, List.mem_map.2 ⟨item, List.mem_cons_self, haddress.symm⟩⟩
            · rw [Function.update_of_ne heq] at hsome
              exact Or.inl hsome
          · exact Or.inr ⟨k', hk', hindex, List.mem_cons_of_mem _ hin⟩

/-- The names that a tuple was read from are the addresses of the spec. -/
theorem tupleFromValues_names (hlive : spec.Live) {items : List (String × TupleValue)} {out : TupleMap}
    (h : tupleFromValues spec items = .ok out) :
    (∀ item ∈ items, item.1 ∈ spec.keys.map PartitionKey.address) ∧
      ∀ k ∈ spec.keys, k.address ∈ items.map Prod.fst := by
  unfold tupleFromValues at h
  obtain ⟨out', hitems, hrest⟩ := bind_eq_ok.1 h
  dsimp only at hrest
  split_ifs at hrest with hmissing
  obtain ⟨hnames, hfound⟩ := tupleItems_names hitems
  refine ⟨hnames, fun k hk => ?_⟩
  have hsome : (out' k.index).isSome = true := by
    have hnot := List.filter_eq_nil_iff.1 (List.isEmpty_iff.1 hmissing) k hk
    rw [Bool.not_eq_true, Option.isNone_eq_false_iff] at hnot
    exact hnot
  rcases hfound k.index hsome with hnone | ⟨k', hk', hindex, hin⟩
  · cases hnone
  · rwa [List.inj_on_of_nodup_map hlive.indexes hk' hk hindex] at hin

/-! ## The text of a leaf -/

/-- As many parts as there are lists of parts, none of them empty: each has one. -/
theorem length_eq_one_of_flatMap {α β : Type} {f : α → List β} {l : List α}
    (hne : ∀ a, f a ≠ []) (h : (l.flatMap f).length ≤ l.length) : ∀ a ∈ l, (f a).length = 1 := by
  induction l with
  | nil => exact fun _ ha => absurd ha List.not_mem_nil
  | cons a rest ih =>
      have hall : ∀ l : List α, l.length ≤ (l.flatMap f).length := by
        intro l
        induction l with
        | nil => exact Nat.zero_le _
        | cons b l ih =>
            have hb := List.length_pos_iff.2 (hne b)
            rw [List.flatMap_cons, List.length_append, List.length_cons]
            omega
      have ha := List.length_pos_iff.2 (hne a)
      have hrest := hall rest
      rw [List.flatMap_cons, List.length_append, List.length_cons] at h
      refine List.forall_mem_cons.2 ⟨by omega, ih (by omega)⟩

/-- A list that splits into one piece does not have the separator. -/
theorem splitOn_of_length_eq_one {α : Type} [DecidableEq α] {sep : α} {l : List α}
    (h : (l.splitOn sep).length = 1) : l.splitOn sep = [l] := by
  obtain ⟨piece, hpiece⟩ := List.length_eq_one_iff.1 h
  have hback : [sep].intercalate (l.splitOn sep) = l := List.intercalate_splitOn sep
  rw [hpiece, List.intercalate_singleton] at hback
  rw [hpiece, hback]

/-- The components of a leaf's text. -/
theorem splitOn_canonicalLeafStr (t : ℕ → String) (hkeys : spec.keys ≠ []) :
    (canonicalLeafStr spec t).toList.splitOn ',' = spec.keys.flatMap fun k =>
      (k.address ++ "=" ++ t k.index).toList.splitOn ',' := by
  have htext : (canonicalLeafStr spec t).toList = [','].intercalate
      ((spec.keys.map fun k => k.address ++ "=" ++ t k.index).map String.toList) :=
    String.toList_intercalate
  rw [htext, splitOn_intercalate_flatMap ',' (by simpa using hkeys), List.flatMap_map, List.flatMap_map]

theorem notMem_of_takes {k : PartitionKey} {value : String} (h : k.takes value = true) :
    ',' ∉ value.toList := by
  unfold PartitionKey.takes at h
  split_ifs at h
  · intro hmem
    simp only [isTimeValue, Bool.and_eq_true, List.all_eq_true] at h
    split_ifs at h with hsign
    · cases htext : value.toList with
      | nil => rw [htext] at hmem; exact List.not_mem_nil hmem
      | cons c rest =>
          rw [htext] at hmem hsign h
          obtain rfl : c = '-' := by simpa using hsign
          rcases List.mem_cons.1 hmem with heq | hrest
          · cases heq
          · exact absurd (h.1.1 _ hrest) (by decide)
    · exact absurd (h.1.1 _ hmem) (by decide)
  · intro hmem
    simp only [isIdentityValue, Bool.and_eq_true, List.all_eq_true] at h
    exact absurd (h.2 _ hmem) (by decide)

/-- A component of a plain address and a legal value has no comma. -/
theorem splitOn_component {k : PartitionKey} {value : String} (hplain : IsPlain k.address)
    (hvalue : ',' ∉ value.toList) : (k.address ++ "=" ++ value).toList.splitOn ',' =
      [(k.address ++ "=" ++ value).toList] := by
  rw [List.splitOn_eq_splitOnP]
  refine List.splitOnP_eq_singleton fun c hc => ?_
  rw [beq_eq_false_iff_ne]
  rintro rfl
  simp only [String.toList_append, List.mem_append] at hc
  rcases hc with (hc | hc) | hc
  · exact hplain.comma hc
  · exact absurd hc (by decide)
  · exact hvalue hc

theorem notMem_of_mem_splitOn {sep : Char} {l piece : List Char} (h : piece ∈ l.splitOn sep) :
    sep ∉ piece := by
  induction l generalizing piece with
  | nil =>
      rw [List.splitOn_nil, List.mem_singleton] at h
      rw [h]
      exact List.not_mem_nil
  | cons c rest ih =>
      rw [List.splitOn_eq_splitOnP, List.splitOnP_cons_eq_if_modifyHead, ← List.splitOn_eq_splitOnP] at h
      split_ifs at h with hc
      · rcases List.mem_cons.1 h with rfl | hrest
        · exact List.not_mem_nil
        · exact ih hrest
      · cases hsplit : rest.splitOn sep with
        | nil => exact absurd hsplit (List.splitOn_ne_nil _ _)
        | cons first others =>
            rw [hsplit, List.modifyHead_cons] at h
            rcases List.mem_cons.1 h with rfl | hrest
            · intro hmem
              rcases List.mem_cons.1 hmem with rfl | hin
              · simp at hc
              · exact ih (hsplit ▸ List.mem_cons_self) hin
            · exact ih (hsplit ▸ List.mem_cons_of_mem _ hrest)

/-- What an accepted text was read as: as many components as the spec has keys, one for each address. -/
structure ReadAs (spec : PartitionSpec) (text : String) (m : TupleMap) (items : List (String × String)) :
    Prop where
  parts : List.Forall₂ (fun part item => readComponent text part = .ok item) (text.toList.splitOn ',') items
  names : ∀ k ∈ spec.keys, k.address ∈ items.map Prod.fst
  length : items.length ≤ spec.keys.length
  tuple : tupleFromValues spec (items.map fun item => (item.1, .str item.2)) = .ok m

theorem readAs_of_ok (hlive : spec.Live) {m : TupleMap} (h : parsePartitionTuple spec text = .ok m) :
    ∃ items, ReadAs spec text m items := by
  have hnil : (([] : List (String × String)).map Prod.fst).Nodup := List.nodup_nil
  unfold parsePartitionTuple at h
  obtain ⟨items, hread, htuple⟩ := bind_eq_ok.1 h
  obtain ⟨_, hparts, rfl, hnodup⟩ := (readComponents_eq_ok hnil).1 hread
  have hout := mapError_eq_ok.1 htuple
  obtain ⟨hnames, hfound⟩ := tupleFromValues_names hlive hout
  refine ⟨items, hparts, fun k hk => ?_, ?_, hout⟩
  · obtain ⟨_, hitem, haddress⟩ := List.mem_map.1 (hfound k hk)
    obtain ⟨item, hmem, rfl⟩ := List.mem_map.1 hitem
    exact haddress ▸ List.mem_map_of_mem hmem
  · have hsub : (items.map Prod.fst).Subperm (spec.keys.map PartitionKey.address) :=
      List.subperm_of_subset hnodup fun name hname => by
        obtain ⟨item, hmem, rfl⟩ := List.mem_map.1 hname
        exact hnames _ (List.mem_map_of_mem hmem)
    simpa using hsub.length_le

/-- No text names a leaf of a spec with an address that is not plain. -/
theorem isPlain_of_parse (hlive : spec.Live) {m : TupleMap} (h : parsePartitionTuple spec text = .ok m) :
    ∀ k ∈ spec.keys, IsPlain k.address := by
  obtain ⟨items, hitems⟩ := readAs_of_ok hlive h
  intro k hk
  obtain ⟨item, hmem, haddress⟩ := List.mem_map.1 (hitems.names k hk)
  obtain ⟨part, hpart, hread⟩ := exists_of_forall₂_right hitems.parts hmem
  exact haddress ▸ isPlain_of_readComponent (notMem_of_mem_splitOn hpart) hread

/-- The text of a leaf without a comma in its addresses and values. -/
theorem splitOn_canonicalLeafStr_of_isPlain {t : ℕ → String} (hkeys : spec.keys ≠ [])
    (hplain : ∀ k ∈ spec.keys, IsPlain k.address) (hvalues : ∀ k ∈ spec.keys, ',' ∉ (t k.index).toList) :
    (canonicalLeafStr spec t).toList.splitOn ',' =
      spec.keys.map fun k => (k.address ++ "=" ++ t k.index).toList := by
  rw [splitOn_canonicalLeafStr t hkeys, List.map_eq_flatMap]
  exact List.flatMap_congr fun k hk => splitOn_component (hplain k hk) (hvalues k hk)

/-- **The text of a leaf names the leaf.** What a leaf prints is read back exactly if every address of
    the spec is plain and every value is one that tuples take; and then as the leaf itself, never as
    another. -/
theorem parsePartitionTuple_canonical (hlive : spec.Live) (hkeys : spec.keys ≠ []) (t : ℕ → String)
    {m : TupleMap} : parsePartitionTuple spec (canonicalLeafStr spec t) = .ok m ↔
      (∀ k ∈ spec.keys, IsPlain k.address) ∧ (∀ k ∈ spec.keys, k.takes (t k.index) = true) ∧
        m = spec.tupleMap t := by
  have hitems : (∀ k ∈ spec.keys, IsPlain k.address) → List.Forall₂
      (fun part item => readComponent (canonicalLeafStr spec t) part = .ok item)
      (spec.keys.map fun k => (k.address ++ "=" ++ t k.index).toList)
      (spec.keys.map fun k => (k.address, t k.index)) := by
    intro hplain
    rw [List.forall₂_map_left_iff, List.forall₂_map_right_iff]
    exact List.forall₂_same.2 fun k hk => readComponent_of_isPlain (hplain k hk) _
  have hentry : (spec.keys.map fun k => (k.address, t k.index)).map (fun item =>
      (item.1, TupleValue.str item.2)) = spec.keys.map fun k => (k.address, .str (t k.index)) := by
    rw [List.map_map]
    rfl
  constructor
  · intro h
    have hplain := isPlain_of_parse hlive h
    obtain ⟨items, hparts, -, hlength, hout⟩ := readAs_of_ok hlive h
    -- no more components than addresses: none of them is from a comma within a value
    rw [splitOn_canonicalLeafStr t hkeys] at hparts
    have hle : (spec.keys.flatMap fun k => (k.address ++ "=" ++ t k.index).toList.splitOn ',').length ≤
        spec.keys.length := by
      rw [hparts.length_eq]
      exact hlength
    have hone := length_eq_one_of_flatMap (fun k => List.splitOn_ne_nil ',' _) hle
    have hvalues : ∀ k ∈ spec.keys, ',' ∉ (t k.index).toList := by
      intro k hk hmem
      have hpiece : (k.address ++ "=" ++ t k.index).toList ∈
          (k.address ++ "=" ++ t k.index).toList.splitOn ',' := by
        rw [splitOn_of_length_eq_one (hone k hk)]
        exact List.mem_cons_self
      refine notMem_of_mem_splitOn hpiece ?_
      rw [String.toList_append]
      exact List.mem_append_right _ hmem
    rw [← splitOn_canonicalLeafStr t hkeys, splitOn_canonicalLeafStr_of_isPlain hkeys hplain hvalues]
      at hparts
    have hunique : Relator.RightUnique fun part item =>
        readComponent (canonicalLeafStr spec t) part = .ok item :=
      fun _ _ _ h h' => Except.ok.inj (h.symm.trans h')
    obtain rfl := hunique.forall₂ hparts (hitems hplain)
    rw [hentry] at hout
    obtain ⟨htakes, rfl⟩ := (tupleFromValues_eq_ok hlive t).1 hout
    exact ⟨hplain, htakes, rfl⟩
  · rintro ⟨hplain, htakes, rfl⟩
    have hnil : (([] : List (String × String)).map Prod.fst).Nodup := List.nodup_nil
    refine bind_eq_ok.2 ⟨spec.keys.map fun k => (k.address, t k.index), ?_, ?_⟩
    · rw [splitOn_canonicalLeafStr_of_isPlain hkeys hplain fun k hk => notMem_of_takes (htakes k hk)]
      refine (readComponents_eq_ok hnil).2 ⟨_, hitems hplain, rfl, ?_⟩
      rw [List.map_map]
      exact hlive.addresses
    · rw [hentry, (tupleFromValues_eq_ok hlive t).2 ⟨htakes, rfl⟩]
      rfl

end Millpond.Maintenance
