import Millpond.Maintenance.DropWork

set_option autoImplicit false

/-! # The two sources of a campaign's work

What a listing printed goes back into a campaign as its manifest, or leaf by leaf by `--partition`. -/

namespace Millpond.Maintenance

variable {spec : PartitionSpec} {tableId : ℕ} {cutoff cutoff' floorSnap maxFiles maxRot : ℤ} {c : Catalog}
  {t : ℕ → String} {rows : List EnumRow} {listing : Listing} {leaf : Leaf}

/-! ## A listed leaf -/

theorem canonicalLeafStr_congr {t' : ℕ → String} (h : ∀ k ∈ spec.keys, t k.index = t' k.index) :
    canonicalLeafStr spec t = canonicalLeafStr spec t' := by
  unfold canonicalLeafStr
  rw [List.map_congr_left fun k hk => by rw [h k hk]]

/-- A listed leaf prints the tuple of its values. -/
theorem partition_of_mem (h : classifyEnumeration spec cutoff floorSnap maxFiles maxRot rows = .ok listing)
    (hmem : leaf ∈ listing.leaves) (hvalues : leaf.values = spec.keys.map fun k => (k.address, t k.index)) :
    leaf.partition = canonicalLeafStr spec t := by
  obtain ⟨⟨key, bucket⟩, hbucket, rfl⟩ := (mem_leaves h).1 hmem
  have hmembers := Groups.mem_collect.1 hbucket
  cases hlist : (rows.filterMap (EnumRow.candidate spec cutoff floorSnap)).filter
      fun r => r.1.bucketKey spec = key with
  | nil =>
      rw [hlist] at hmembers
      cases hmembers
  | cons first rest =>
      rw [hlist, fromMembers_leaf] at hmembers
      obtain rfl := Option.some.inj hmembers
      have htext := List.map_inj_left.1 hvalues
      exact canonicalLeafStr_congr fun k hk => congrArg Prod.snd (htext k hk)

theorem canonicalLeafStr_ne_empty (hkeys : spec.keys ≠ []) : canonicalLeafStr spec t ≠ "" := by
  obtain ⟨k, rest, hcons⟩ := List.exists_cons_of_ne_nil hkeys
  intro hempty
  have hlist := congrArg String.toList hempty
  unfold canonicalLeafStr at hlist
  rw [hcons] at hlist
  cases rest <;> simp [String.toList_intercalate] at hlist

/-- A listing has seen no file of another spec that is not provably at or above the cutoff. -/
theorem oldSpec_composes (h : classifyEnumeration spec cutoff floorSnap maxFiles maxRot rows = .ok listing)
    {row : EnumRow} (hrow : row ∈ rows) (hold : row.partitionId ≠ some spec.partitionId) :
    ∃ ts ≥ cutoff, row.Composes spec ts := by
  unfold classifyEnumeration at h
  obtain ⟨st, hst, hrest⟩ := bind_eq_ok.1 h
  have hblocking := (classifyRows_counted hst).blocking
  split_ifs at hrest with hempty
  have hnil : rows.filter (EnumRow.isBlocking spec cutoff) = [] := by
    rw [← List.length_eq_zero_iff, ← hblocking, List.length_eq_zero_iff]
    simpa using hempty
  by_contra hnot
  exact List.filter_eq_nil_iff.1 hnil row hrow (isBlocking_iff.2 ⟨hold, hnot⟩)

/-- The partition values of a file are under its table. -/
def ValuesUnderTable (c : Catalog) : Prop :=
  ∀ v ∈ c.filePartitionValues, ∀ f ∈ c.dataFiles.rows, v.dataFileId = f.dataFileId → v.tableId = f.tableId

theorem mem_oldSpecFiles {m : TupleMap} {f : DataFile} : f ∈ oldSpecFiles spec tableId m c ↔
    f ∈ c.dataFiles.rows ∧ (f.tableId = tableId ∧ f.endSnapshot = none ∧
      f.partitionId ≠ some spec.partitionId) ∧ ∀ k ∈ spec.keys, ∃ v ∈ c.filePartitionValues,
        (v.dataFileId = f.dataFileId ∧ v.partitionKeyIndex = k.index) ∧
          ∃ value, v.partitionValue = some value ∧ m k.index = some value := by
  unfold oldSpecFiles
  simp only [List.mem_filter, Bool.and_eq_true, decide_eq_true_eq, List.all_eq_true, List.any_eq_true,
    Option.any_eq_true, beq_iff_eq]

/-- No file of another spec has the tuple of a listed leaf. -/
theorem oldSpecFiles_of_listed (hlive : spec.Live) (hrows : rows.Perm (enumerationRows tableId c))
    (h : classifyEnumeration spec cutoff floorSnap maxFiles maxRot rows = .ok listing)
    (hbelow : Below spec cutoff t) (hown : ValuesUnderTable c) :
    oldSpecFiles spec tableId (spec.tupleMap t) c = [] := by
  refine List.eq_nil_iff_forall_not_mem.2 fun f hf => ?_
  obtain ⟨hfile, ⟨htable, hend, hspec⟩, hvalues⟩ := mem_oldSpecFiles.1 hf
  have hvalue : ∀ k ∈ spec.keys, ∃ v ∈ ownValues tableId c f.dataFileId,
      v.partitionKeyIndex = k.index ∧ v.partitionValue = some (t k.index) := by
    intro k hk
    obtain ⟨v, hv, ⟨hid, hindex⟩, value, hstored, hsome⟩ := hvalues k hk
    rw [tupleMap_key hk] at hsome
    refine ⟨v, List.mem_filter.2 ⟨hv, ?_⟩, hindex, hstored.trans hsome.symm⟩
    rw [decide_eq_true_eq]
    exact ⟨(hown v hv f hfile hid).trans htable, hid⟩
  have hrow : enumRow tableId c f ∈ rows := by
    refine hrows.mem_iff.2 (List.mem_map.2 ⟨f, List.mem_filter.2 ⟨hfile, ?_⟩, rfl⟩)
    obtain ⟨k, hk⟩ := List.exists_mem_of_ne_nil _ hbelow.keys_ne_nil
    obtain ⟨v, hv, -⟩ := hvalue k hk
    simpa [htable, hend] using List.ne_nil_of_mem hv
  obtain ⟨ts, hge, hsane, hts⟩ := oldSpec_composes h hrow hspec
  have hholds := holds_of_sane hsane
  have htext : ∀ k ∈ spec.keys, (enumRow tableId c f).column k.index = spec.tupleMap t k.index := by
    intro k hk
    have hpair := (exists_value_iff (tuple_keys_nodup hlive _) hholds).1 (hvalue k hk)
    have hcolumn := (sane_of_holds hlive hholds).2 k hk
    obtain ⟨k', hk', heq⟩ := List.mem_map.1 hpair
    obtain ⟨hindex, hval⟩ := Prod.mk.inj heq
    rw [hcolumn, tupleMap_key hk, ← hval, hindex]
  obtain ⟨partTs, hcut, hcompose⟩ := hbelow
  rw [composePartTs_congr htext, hcompose] at hts
  have heq := Option.some.inj (Except.ok.inj hts)
  omega

/-- What `--partition` makes of a listed leaf. -/
theorem partitionWork_of_listed (hlive : spec.Live) (hrows : rows.Perm (enumerationRows tableId c))
    (h : classifyEnumeration spec cutoff floorSnap maxFiles maxRot rows = .ok listing)
    (hmem : leaf ∈ listing.leaves) (hown : ValuesUnderTable c) (hcut : cutoff ≤ cutoff')
    {work : List (String × TupleMap)} :
    partitionWork spec tableId cutoff' c leaf.partition = .ok work ↔
      (∀ k ∈ spec.keys, IsPlain k.address) ∧ ∃ m, tupleFromValues spec leaf.entry = .ok m ∧
        work = [(leaf.partition, m)] := by
  obtain ⟨t, hleaf⟩ := leafOf_of_mem hlive hrows h hmem
  have hpartition := partition_of_mem h hmem hleaf.values
  have hprinted : canonicalLeafStr spec (fun i => (spec.tupleMap t i).getD "") = leaf.partition := by
    rw [hpartition]
    exact canonicalLeafStr_congr fun k hk => by rw [tupleMap_key hk, Option.getD_some]
  have hrest : ∀ work, (do
      let partTs ← (composePartTs spec (spec.tupleMap t)).mapError WorkAbort.plan
      if partTs.all (cutoff' ≤ ·) then .error (.notBelow partTs)
      else
        let old := oldSpecFiles spec tableId (spec.tupleMap t) c
        if !old.isEmpty then .error (.oldSpecLeaf old.length)
        else .ok [(canonicalLeafStr spec fun i => (spec.tupleMap t i).getD "", spec.tupleMap t)]) =
          Except.ok work ↔ work = [(leaf.partition, spec.tupleMap t)] := by
    intro work
    obtain ⟨partTs, hlt, hcompose⟩ := hleaf.below
    have hnot : ¬ (some partTs).all (cutoff' ≤ ·) = true := by
      rw [Option.all_some, decide_eq_true_eq]
      omega
    rw [hcompose, Except.mapError, ok_bind, if_neg hnot]
    dsimp only
    rw [oldSpecFiles_of_listed hlive hrows h hleaf.below hown, hprinted]
    exact ⟨fun hok => (Except.ok.inj hok).symm, fun heq => congrArg Except.ok heq.symm⟩
  unfold partitionWork
  rw [bind_eq_ok, hpartition, hleaf.entry]
  simp only [parsePartitionTuple_canonical hlive hleaf.below.keys_ne_nil, tupleFromValues_eq_ok hlive]
  constructor
  · rintro ⟨_, ⟨hplain, htakes, rfl⟩, hwork⟩
    exact ⟨hplain, _, ⟨htakes, rfl⟩, hpartition ▸ (hrest work).1 hwork⟩
  · rintro ⟨hplain, _, ⟨htakes, rfl⟩, rfl⟩
    exact ⟨_, ⟨hplain, htakes, rfl⟩, (hrest _).2 (by rw [hpartition])⟩

/-! ## The cutoff -/

theorem checkCutoff_eq_ok {now grain : ℤ} {force : Bool} : checkCutoff now cutoff grain force = .ok ⟨⟩ ↔
    truncated grain cutoff = cutoff ∧ (force = true ∨ cutoff + dropMinCutoffAge ≤ now) := by
  unfold checkCutoff
  split_ifs with haligned hyoung
  · exact ⟨fun h => (by cases h), fun h => absurd h.1 haligned⟩
  · refine ⟨fun h => (by cases h), fun ⟨_, h⟩ => ?_⟩
    rcases h with hforce | hage
    · rw [hyoung.2] at hforce
      cases hforce
    · omega
  · refine ⟨fun _ => ⟨not_not.1 haligned, ?_⟩, fun _ => rfl⟩
    rcases not_and_or.1 hyoung with hold | hforce
    · exact Or.inr (by omega)
    · exact Or.inl (by simpa using hforce)

/-- A cutoff that passed its check passes it at any later time. -/
theorem checkCutoff_later {now now' grain : ℤ} {force : Bool}
    (h : checkCutoff now cutoff grain force = .ok ⟨⟩) (hlater : now ≤ now') :
    checkCutoff now' cutoff grain force = .ok ⟨⟩ := by
  rw [checkCutoff_eq_ok] at h ⊢
  exact ⟨h.1, h.2.imp_right fun hage => hage.trans hlater⟩

/-- A resolved cutoff has passed its check. -/
theorem checkCutoff_of_resolveCutoff {iso : IsoFormat} {now grain : ℤ} {args : CutoffArgs}
    (h : resolveCutoff iso now grain args = .ok cutoff) :
    checkCutoff now cutoff grain args.forceYoung = .ok ⟨⟩ := by
  have hmap : ∀ {cutoff₀}, (checkCutoff now cutoff₀ grain args.forceYoung).map (fun _ => cutoff₀) =
      .ok cutoff → checkCutoff now cutoff grain args.forceYoung = .ok ⟨⟩ := by
    intro cutoff₀ hok
    obtain ⟨⟨⟩, hcheck, rfl⟩ := map_eq_ok.1 hok
    exact hcheck
  unfold resolveCutoff at h
  split_ifs at h
  · split at h
    · cases h
    · exact hmap h
  · split at h
    · cases h
    · exact hmap h

/-! ## The two sources -/

variable {iso : IsoFormat} {now now' : ℤ} {table : CampaignTable} {args : CutoffArgs}

/-- An entry of the work is what a leaf of the manifest says. -/
def EntryOf (spec : PartitionSpec) (leaf : Leaf) (entry : String × TupleMap) : Prop :=
  entry.1 = leaf.partition ∧ tupleFromValues spec leaf.entry = .ok entry.2

theorem manifestWork_printed {force : Bool} (hiso : iso.read (iso.write cutoff) = some cutoff)
    (hcheck : checkCutoff now cutoff table.spec.grain force = .ok ⟨⟩)
    {result : ℤ × List (String × TupleMap)} :
    manifestWork iso now table force (some (printedManifest iso table cutoff listing)) = .ok result ↔
      result.1 = cutoff ∧ List.Forall₂ (EntryOf table.spec) listing.leaves result.2 := by
  have hload : loadManifest (some (printedManifest iso table cutoff listing)) =
      .ok (printedManifest iso table cutoff listing, table.name, iso.write cutoff,
        listing.leaves.map fun leaf => ⟨leaf.partition, leaf.entry⟩) := rfl
  have hentry : ∀ leaf entry, ((tupleFromValues table.spec (Leaf.entry leaf)).mapError WorkAbort.plan).map
      (Prod.mk leaf.partition) = .ok entry ↔ EntryOf table.spec leaf entry := by
    intro leaf entry
    rw [map_eq_ok]
    simp only [mapError_eq_ok]
    constructor
    · rintro ⟨m, hm, rfl⟩
      exact ⟨rfl, hm⟩
    · rintro ⟨hpartition, hm⟩
      exact ⟨entry.2, hm, Prod.ext hpartition.symm rfl⟩
  unfold manifestWork
  rw [hload, ok_bind]
  dsimp only
  rw [if_neg (not_not.2 rfl), if_neg (by simp [printedManifest])]
  simp only [hiso, hcheck, ok_bind, bind_eq_ok, mapM_eq_ok_iff, List.forall₂_map_left_iff, hentry]
  constructor
  · rintro ⟨work, hwork, hresult⟩
    obtain rfl := Except.ok.inj hresult
    exact ⟨rfl, hwork⟩
  · rintro ⟨rfl, hwork⟩
    exact ⟨_, hwork, rfl⟩

/-- **A listing and its campaigns.** For every listing of a live catalog, fed back at any later time: its
    manifest sets up the cutoff and, in order, every leaf with the tuple of its values; and any leaf of it,
    by its text and the cutoff alone, sets up exactly its entry of the manifest, or nothing if an address
    of the spec is not plain. -/
theorem campaigns_of_listing {info : List ℕ} {cols : List PartitionKey}
    (hspec : resolveLiveSpec info cols = .ok table.spec)
    (hrows : rows.Perm (enumerationRows table.tableId c))
    (hlist : listDroppablePartitions table.spec table.tableId cutoff floorSnap maxFiles maxRot c rows =
      .ok listing) (hown : ValuesUnderTable c)
    (hcutoff : resolveCutoff iso now table.spec.grain args = .ok cutoff) (hlater : now ≤ now')
    (hiso : iso.read (iso.write cutoff) = some cutoff) (htext : iso.write cutoff ≠ "")
    {path : String} (hpath : path ≠ "") (result : ℤ × List (String × TupleMap)) :
    (campaignWork iso now' table ⟨"", path, some (printedManifest iso table cutoff listing)⟩
        ⟨"", none, args.forceYoung⟩ c = .ok result ↔
      result.1 = cutoff ∧ List.Forall₂ (EntryOf table.spec) listing.leaves result.2) ∧
    ∀ leaf ∈ listing.leaves, (campaignWork iso now' table ⟨leaf.partition, "", none⟩
        ⟨iso.write cutoff, none, args.forceYoung⟩ c = .ok result ↔
      (∀ k ∈ table.spec.keys, IsPlain k.address) ∧
        ∃ entry, EntryOf table.spec leaf entry ∧ result = (cutoff, [entry])) := by
  have hlive := resolveLiveSpec_live hspec
  have hcheck := checkCutoff_later (checkCutoff_of_resolveCutoff hcutoff) hlater
  unfold listDroppablePartitions at hlist
  obtain ⟨_, -, hlisting⟩ := bind_eq_ok.1 hlist
  refine ⟨?_, fun leaf hmem => ?_⟩
  · unfold campaignWork
    rw [if_neg (by simp [hpath]), if_pos hpath, if_neg (by simp)]
    exact manifestWork_printed hiso hcheck
  · have hpartition : leaf.partition ≠ "" := by
      obtain ⟨t, hleaf⟩ := leafOf_of_mem hlive hrows hlisting hmem
      rw [partition_of_mem hlisting hmem hleaf.values]
      exact canonicalLeafStr_ne_empty hleaf.below.keys_ne_nil
    have hresolve : resolveCutoff iso now' table.spec.grain ⟨iso.write cutoff, none, args.forceYoung⟩ =
        .ok cutoff := by
      unfold resolveCutoff
      rw [if_pos htext, if_neg (by simp), hiso]
      dsimp only
      rw [hcheck]
      rfl
    unfold campaignWork
    rw [if_neg (by simp [hpartition]), if_neg (by simp), hresolve, ok_bind, bind_eq_ok]
    simp only [partitionWork_of_listed hlive hrows hlisting hmem hown le_rfl]
    constructor
    · rintro ⟨_, ⟨hplain, m, hm, rfl⟩, hresult⟩
      exact ⟨hplain, (leaf.partition, m), ⟨rfl, hm⟩, (Except.ok.inj hresult).symm⟩
    · rintro ⟨hplain, entry, ⟨hname, hm⟩, rfl⟩
      refine ⟨_, ⟨hplain, entry.2, hm, rfl⟩, ?_⟩
      rw [← hname]
      rfl

/-- The table of the file in Berlin. -/
def berlinTable : CampaignTable := ⟨"events", 1, ⟨5, cityKeys⟩⟩

/-- The one instant that its campaign writes and reads: September 1st, 2026. -/
def septemberFirst : IsoFormat where
  read text := if text = "2026-09-01T00:00:00+00:00" then some 1788220800000000 else none
  write _ := "2026-09-01T00:00:00+00:00"

def berlinListing : Listing := ⟨[cityLeaf "Berlin" "city=Berlin,year=2026,month=8,day=1"], 0, [], 0⟩

/-- The work of the leaf in Berlin. -/
def berlinWork : ℤ × List (String × TupleMap) :=
  (1788220800000000, [("city=Berlin,year=2026,month=8,day=1",
    (⟨5, cityKeys⟩ : PartitionSpec).tupleMap fun i => ["Berlin", "2026", "8", "1"].getD i "")])

/-- Listed on September 10th, dropped a day later. -/
theorem berlin_campaigns :
    (campaignWork septemberFirst 1789084800000000 berlinTable
        ⟨"", "leaves.json", some (printedManifest septemberFirst berlinTable 1788220800000000 berlinListing)⟩
        ⟨"", none, false⟩ (cityFile "Berlin") = .ok berlinWork ↔
      berlinWork.1 = 1788220800000000 ∧
        List.Forall₂ (EntryOf ⟨5, cityKeys⟩) berlinListing.leaves berlinWork.2) ∧
    ∀ leaf ∈ berlinListing.leaves, (campaignWork septemberFirst 1789084800000000 berlinTable
        ⟨leaf.partition, "", none⟩ ⟨"2026-09-01T00:00:00+00:00", none, false⟩ (cityFile "Berlin") =
          .ok berlinWork ↔
      (∀ k ∈ cityKeys, IsPlain k.address) ∧
        ∃ entry, EntryOf ⟨5, cityKeys⟩ leaf entry ∧ berlinWork = (1788220800000000, [entry])) := by
  have hspec : resolveLiveSpec [5] cityKeys = .ok berlinTable.spec := by decide +kernel
  have hlist : listCityFile "Berlin" = .ok berlinListing := by decide +kernel
  have hown : ValuesUnderTable (cityFile "Berlin") := by
    unfold ValuesUnderTable
    decide
  have hcutoff : resolveCutoff septemberFirst 1788998400000000 berlinTable.spec.grain
      ⟨"2026-09-01T00:00:00+00:00", none, false⟩ = .ok 1788220800000000 := by decide +kernel
  exact campaigns_of_listing hspec (List.Perm.refl _) hlist hown hcutoff (by decide) (by decide) (by decide)
    (by decide) berlinWork

end Millpond.Maintenance
