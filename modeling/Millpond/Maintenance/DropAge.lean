import Millpond.Maintenance.GuardOverride
import Millpond.Maintenance.WorkAgreement

set_option autoImplicit false

/-! # A campaign drops whole periods of the past

From the cutoff that the set-up accepts to the files that the transactions end. -/

namespace Millpond.Maintenance

open Prog ReadCommitted

variable {spec : PartitionSpec} {cutoff floorSnap : ℤ} {c : Catalog}

/-! ## Periods -/

theorem grain_pos (spec : PartitionSpec) : 0 < spec.grain := by
  unfold PartitionSpec.grain dayMicros hourMicros
  split_ifs <;> decide

theorem datetimeUtc_aligned {year month day hour ts : ℤ}
    (h : datetimeUtc year month day hour = .ok (some ts)) :
    hourMicros ∣ ts ∧ (hour = 0 → dayMicros ∣ ts) := by
  unfold datetimeUtc at h
  split_ifs at h
  · obtain rfl := Option.some.inj (Except.ok.inj h)
    refine ⟨Dvd.intro_left _ rfl, ?_⟩
    rintro rfl
    refine Dvd.intro_left (toOrdinal year month day - 719163) ?_
    unfold dayMicros hourMicros
    rw [add_zero, mul_assoc]
  · cases h

/-- A leaf's instant is the beginning of a period of the spec's grain. -/
theorem composePartTs_aligned {values : TupleMap} {ts : ℤ}
    (h : composePartTs spec values = .ok (some ts)) : spec.grain ∣ ts := by
  unfold composePartTs at h
  dsimp only at h
  split_ifs at h
  · cases h
  split at h
  · obtain ⟨hhour, hday⟩ := datetimeUtc_aligned h
    unfold PartitionSpec.grain
    split_ifs with hkeys
    · exact hhour
    · refine hday ?_
      have hnone : spec.keys.find? (fun k => k.transform == "hour") = none := by
        refine List.find?_eq_none.2 fun k hk heq => hkeys ?_
        exact beq_iff_eq.1 heq ▸ List.mem_map_of_mem hk
      rw [timeField, hnone]
      rfl
  · cases h

/-- A period that begins before an aligned cutoff is over at the cutoff. -/
theorem end_le_cutoff {ts : ℤ} (haligned : truncated spec.grain cutoff = cutoff) (hts : spec.grain ∣ ts)
    (hlt : ts < cutoff) : ts + spec.grain ≤ cutoff := by
  have hcutoff : spec.grain ∣ cutoff := by
    refine Int.dvd_of_emod_eq_zero ?_
    unfold truncated at haligned
    omega
  obtain ⟨a, rfl⟩ := hts
  obtain ⟨b, rfl⟩ := hcutoff
  have hab : a < b := lt_of_mul_lt_mul_left hlt (grain_pos spec).le
  calc spec.grain * a + spec.grain = spec.grain * (a + 1) := by rw [mul_add, mul_one]
    _ ≤ spec.grain * b := mul_le_mul_of_nonneg_left hab (grain_pos spec).le

/-! ## The set-up -/

/-- The arguments of the run that a set-up leads to. -/
def DropArgs.setUp (args : DropArgs) (table : CampaignTable) (leafArgs : LeafArgs) (cutoff : ℤ) : DropArgs :=
  { args with
    tableId := table.tableId
    spec := table.spec
    cutoff := cutoff
    manifest := decide (leafArgs.manifest.1 ≠ "") }

/-- A set-up has checked its cutoff. -/
theorem checkCutoff_of_campaignWork {iso : IsoFormat} {now : ℤ} {table : CampaignTable} {leafArgs : LeafArgs}
    {cutoffArgs : CutoffArgs} {work : List (String × TupleMap)}
    (h : campaignWork iso now table leafArgs cutoffArgs c = .ok (cutoff, work)) :
    checkCutoff now cutoff table.spec.grain cutoffArgs.forceYoung = .ok ⟨⟩ := by
  unfold campaignWork at h
  split_ifs at h
  · unfold manifestWork at h
    obtain ⟨⟨m, name, text, leaves⟩, -, hrest⟩ := bind_eq_ok.1 h
    dsimp only at hrest
    split_ifs at hrest
    split at hrest
    · cases hrest
    · obtain ⟨⟨⟩, hcheck, hwork⟩ := bind_eq_ok.1 hrest
      obtain ⟨work, -, hpair⟩ := bind_eq_ok.1 hwork
      obtain ⟨rfl, -⟩ := Prod.mk.inj (Except.ok.inj hpair)
      exact hcheck
  · obtain ⟨cutoff, hresolve, hrest⟩ := bind_eq_ok.1 h
    obtain ⟨work, -, hpair⟩ := bind_eq_ok.1 hrest
    obtain ⟨rfl, -⟩ := Prod.mk.inj (Except.ok.inj hpair)
    exact checkCutoff_of_resolveCutoff hresolve

/-! ## What a turn attempts -/

variable {args : DropArgs} {leaf : String × TupleMap} {w : TurnWorld}

/-- The files a turn goes on to drop are those it selects for a leaf below the cutoff. -/
theorem selected_of_prepare {files : List LeafFile}
    (h : args.prepare floorSnap leaf.2 w c = .ok (.drops files)) :
    (∃ partTs < args.cutoff, composePartTs args.spec leaf.2 = .ok (some partTs)) ∧
      ∃ tuple, leafTuple args.spec floorSnap leaf.2 = .ok tuple ∧
        files = selectLeafFiles tuple args.tableId (w.view c) := by
  unfold DropArgs.prepare at h
  obtain ⟨partTs, hcompose, hrest⟩ := bind_eq_ok.1 h
  split_ifs at hrest with hnot
  · cases hrest
  · obtain ⟨guard, -, hselect⟩ := bind_eq_ok.1 hrest
    obtain ⟨selected, hselected, hcheck⟩ := bind_eq_ok.1 hselect
    have hfiles : selected = files := by
      unfold DropArgs.check at hcheck
      split_ifs at hcheck <;> cases hcheck
      rfl
    subst hfiles
    constructor
    · cases partTs with
      | none => exact absurd rfl hnot
      | some ts =>
          refine ⟨ts, ?_, mapError_eq_ok.1 hcompose⟩
          simpa using hnot
    · unfold DropArgs.select at hselected
      obtain ⟨tuple, htuple, hread⟩ := bind_eq_ok.1 hselected
      refine ⟨tuple, mapError_eq_ok.1 htuple, ?_⟩
      unfold readOr at hread
      cases hfails : w.selectionFails with
      | some e => rw [hfails] at hread; cases hread
      | none => rw [hfails] at hread; exact (Except.ok.inj hread).symm

/-! ## What a turn ends -/

section Drop

variable {R : List Write → Catalog → Catalog → Prop} {P : List Write → Catalog → Prop} {d : LeafDrop}

/-- The rule for a drop with its retries: what its transaction commits satisfies `P`. -/
theorem outside_dropLeafWithRetries (htxn : ∀ isolation clock check,
      Outside R P (fun _ => True) (dropLeafTxn d isolation clock check)) (server : DropServer) (check : Bool) :
    Outside R P (fun _ => True) (dropLeafWithRetries d server check) := by
  have hrelease : Outside R P (fun _ => True) releaseLock :=
    (outside_query _ _).tryCatch fun _ => outside_pure _
  have hreconnect : ∀ closed, Outside R P (fun _ => True) (reconnect closed) := fun _ =>
    .ite (outside_query _ _) (outside_pure _)
  have hlock : ∀ acquired, Outside R P (fun _ => True) (lockRefresh acquired) := fun _ =>
    (outside_query _ _).bind fun _ => (outside_query _ _).bind fun _ =>
      .ite (outside_pure _) (outside_throw _)
  have hattempt : ∀ attempt check, Outside R P (fun _ => True) (dropAttempt d server attempt check) := by
    intro attempt check
    unfold dropAttempt
    refine Outside.bind (Outside.tryCatch ?_ fun e => ?_) fun result => ?_
    · refine (hreconnect _).bind fun _ => (hlock _).bind fun _ => (htxn _ _ _).bind fun _ => outside_pure _
    · exact hrelease.bind fun _ => outside_throw _
    · exact hrelease.bind fun _ => outside_pure _
  have hattempts : ∀ left attempt lockAttempts check,
      Outside R P (fun _ => True) (dropAttempts d server left attempt lockAttempts check) := by
    intro left
    induction left with
    | zero => exact fun _ _ _ => outside_throw _
    | succ left ih =>
        intro attempt lockAttempts check
        unfold dropAttempts
        refine .ite (outside_throw _) ((hattempt _ _).tryCatch fun e => ?_)
        cases e with
        | abort reason => exact outside_throw _
        | skip reason => exact outside_throw _
        | lockContended => exact .ite (outside_throw _) (ih _ _ _)
        | pg e => exact .ite (ih _ _ _) (outside_throw _)
  exact hattempts _ _ _ _

/-- A drop ends files of its leaf only. -/
theorem outside_drop_ends (server : DropServer) (check : Bool) :
    Outside R (fun own _ => endedIn own ⊆ d.ids) (fun _ => True) (dropLeafWithRetries d server check) := by
  refine outside_dropLeafWithRetries (fun isolation clock check => ?_) server check
  refine outside_transaction (inside_dropLeafStatements _ _ _ _) fun s hw hown _ => ?_
  refine wp_mono (dropLeafStatements_run hw hown d isolation clock check) (fun _ t h => ?_)
    (fun _ _ _ => trivial)
  obtain ⟨r, -, -, -, howns, -⟩ := h
  rw [howns, endedIn_writes]
  intro id hid
  obtain ⟨f, hf, rfl⟩ := List.mem_map.1 hid
  have hendable := (List.mem_filter.1 hf).2
  simp only [LeafDrop.endable, decide_eq_true_eq] at hendable
  exact hendable.1

end Drop

/-- A turn ends no file that it did not go on to drop. -/
theorem ended_subset_attempted (firstTxn : Bool) :
    (args.runTurn floorSnap leaf w firstTxn c).turn.ended ⊆
      (args.runTurn floorSnap leaf w firstTxn c).turn.attempted.map LeafFile.dataFileId := by
  rw [attempted_runTurn]
  unfold DropArgs.runTurn
  split
  · exact List.nil_subset _
  · exact List.nil_subset _
  · next files hprepare =>
      rw [hprepare]
      have hcommits : (args.dropTurn leaf files w firstTxn c).turn.commits =
          (commits (final (dropLeafWithRetries (args.leafDrop leaf.1 files) w.server firstTxn)
            (dropSession (w.view c) w.schedule w.fates)).seen).map Prod.fst := by
        unfold DropArgs.dropTurn final
        dsimp only
        split <;> next heq => rw [heq]
      have hran := final_of_wp (outside_drop_ends (R := OthersCommit) w.server firstTxn
        (dropSession (w.view c) w.schedule w.fates) (dropSession_within _ _ _) rfl trivial :
          wp (dropLeafWithRetries (args.leafDrop leaf.1 files) w.server firstTxn) _ _ _)
      obtain ⟨added, hseen, -, hall⟩ := hran.log
      intro id hid
      obtain ⟨own, hown, hin⟩ := List.mem_flatMap.1 hid
      rw [hcommits, hseen] at hown
      obtain ⟨entry, hentry, rfl⟩ := List.mem_map.1 hown
      have hfresh : commits (dropSession (w.view c) w.schedule w.fates).seen = [] := rfl
      rw [commits_append, hfresh, List.append_nil] at hentry
      exact hall entry hentry hin

/-! ## What a run ends -/

/-- Every turn of a run is a turn of the loop over an item of the work. -/
theorem turn_of_loop {world : ℕ → TurnWorld} {work : List (String × TupleMap)} :
    ∀ {n firstTxn c i turn}, (args.loop floorSnap world work n firstTxn c).turns[i]? = some turn →
      ∃ leaf ∈ work, ∃ first, turn = (args.runTurn floorSnap leaf (world (n + i)) first turn.before).turn := by
  induction work with
  | nil =>
      intro n firstTxn c i turn h
      simp [DropArgs.loop] at h
  | cons leaf rest ih =>
      intro n firstTxn c i turn h
      by_cases hbudget : (world n).overBudget = true
      · simp [DropArgs.loop, hbudget] at h
      · rw [loop_cons leaf rest (by simpa using hbudget)] at h
        cases i with
        | zero =>
            obtain rfl := Option.some.inj h
            refine ⟨leaf, List.mem_cons_self, firstTxn, ?_⟩
            rw [runTurn_before]
            rfl
        | succ i =>
            have hrest : (if (args.runTurn floorSnap leaf (world n) firstTxn c).turn.outcome.isRaised then
                (⟨[], (args.runTurn floorSnap leaf (world n) firstTxn c).catalog⟩ : Run)
              else args.loop floorSnap world rest (n + 1)
                (args.runTurn floorSnap leaf (world n) firstTxn c).firstTxn
                (args.runTurn floorSnap leaf (world n) firstTxn c).catalog).turns[i]? = some turn := h
            split at hrest
            · simp at hrest
            · obtain ⟨item, hitem, first, hturn⟩ := ih hrest
              refine ⟨item, List.mem_cons_of_mem _ hitem, first, ?_⟩
              rwa [Nat.add_assoc, Nat.add_comm 1 i] at hturn

/-- A live file of the table, all of whose partition values are those of one period that was over by
    `instant`. -/
structure Bygone (table : CampaignTable) (instant : ℤ) (c : Catalog) (f : DataFile) : Prop where
  live : f.tableId = table.tableId ∧ f.endSnapshot = none ∧ f.partitionId = some table.spec.partitionId
  period : ∃ values : TupleMap, ∃ partTs,
    (∀ k ∈ table.spec.keys, ∃ v ∈ fileValues c f.dataFileId, v.partitionKeyIndex = k.index ∧
      v.partitionValue = values k.index) ∧
    (fileValues c f.dataFileId).length = table.spec.keys.length ∧
    composePartTs table.spec values = .ok (some partTs) ∧ partTs + table.spec.grain ≤ instant

theorem bygone_of_selects {table : CampaignTable} {instant partTs : ℤ} {values : TupleMap} {tuple : LeafTuple}
    {f : DataFile} (htuple : leafTuple table.spec floorSnap values = .ok tuple)
    (hselects : tuple.selects table.tableId c f = true)
    (hcompose : composePartTs table.spec values = .ok (some partTs))
    (hover : partTs + table.spec.grain ≤ instant) : Bygone table instant c f := by
  unfold leafTuple at htuple
  obtain ⟨keys, hkeys, hpure⟩ := bind_eq_ok.1 htuple
  obtain rfl := Except.ok.inj hpure
  simp only [LeafTuple.selects, decide_eq_true_eq] at hselects
  obtain ⟨htable, hend, hspec, -, hlength, hall⟩ := hselects
  have hread := mapM_eq_ok_iff.1 hkeys
  refine ⟨⟨htable, hend, hspec⟩, values, partTs, fun k hk => ?_, ?_, hcompose, hover⟩
  · obtain ⟨key, hkey, hok⟩ := exists_of_forall₂_left hread hk
    obtain ⟨v, hv, hid, hindex, hvalue⟩ := hall key hkey
    cases hsome : values k.index with
    | none => rw [hsome] at hok; cases hok
    | some value =>
        rw [hsome] at hok
        obtain rfl := Except.ok.inj hok
        exact ⟨v, List.mem_filter.2 ⟨hv, decide_eq_true hid⟩, hindex, hvalue⟩
  · exact hlength.trans hread.length_eq.symm

/-- **A campaign drops the past.** Whatever the source of its work, if its cutoff is not forced: in every
    run of it, against any world, a turn ends only files that it has selected, and each of these holds the
    values of a period that was over a week before the set-up. -/
theorem campaign_drops_bygone {iso : IsoFormat} {now : ℤ} {table : CampaignTable} {leafArgs : LeafArgs}
    {cutoffArgs : CutoffArgs} {c₀ : Catalog} {work : List (String × TupleMap)} {world : ℕ → TurnWorld}
    {run : Run} (hwork : campaignWork iso now table leafArgs cutoffArgs c₀ = .ok (cutoff, work))
    (hforce : cutoffArgs.forceYoung = false)
    (hrun : dropPartitions (args.setUp table leafArgs cutoff) work world c = .ok run) (i : ℕ) (turn : Turn)
    (hturn : run.turns[i]? = some turn) :
    turn.ended ⊆ turn.attempted.map LeafFile.dataFileId ∧
      ∀ file ∈ turn.attempted, ∃ f ∈ ((world i).view turn.before).dataFiles.rows, f.leafFile = file ∧
        Bygone table (now - dropMinCutoffAge) ((world i).view turn.before) f := by
  obtain ⟨haligned, hage⟩ := checkCutoff_eq_ok.1 (checkCutoff_of_campaignWork hwork)
  have hage := hage.resolve_left (by rw [hforce]; exact Bool.false_ne_true)
  unfold dropPartitions at hrun
  obtain ⟨_, -, hrest⟩ := bind_eq_ok.1 hrun
  obtain ⟨_, -, hfloor⟩ := bind_eq_ok.1 hrest
  obtain ⟨floorSnap, -, hloop⟩ := bind_eq_ok.1 hfloor
  obtain rfl := Except.ok.inj hloop
  obtain ⟨leaf, -, first, heq⟩ := turn_of_loop hturn
  rw [Nat.zero_add] at heq
  refine ⟨heq ▸ ended_subset_attempted first, fun file hfile => ?_⟩
  rw [heq, attempted_runTurn] at hfile
  cases hprepare : (args.setUp table leafArgs cutoff).prepare floorSnap leaf.2 (world i) turn.before with
  | error e => rw [hprepare] at hfile; exact absurd hfile List.not_mem_nil
  | ok prepared =>
      cases prepared with
      | stays outcome => rw [hprepare] at hfile; exact absurd hfile List.not_mem_nil
      | drops files =>
          rw [hprepare] at hfile
          obtain ⟨⟨partTs, hlt, hcompose⟩, tuple, htuple, rfl⟩ := selected_of_prepare hprepare
          obtain ⟨f, hf, rfl⟩ := List.mem_map.1 hfile
          have hmem := List.mem_filter.1 ((List.mem_insertionSort _).1 hf)
          exact ⟨f, hmem.1, rfl, bygone_of_selects htuple hmem.2 hcompose
            ((end_le_cutoff haligned (composePartTs_aligned hcompose) hlt).trans (by omega))⟩

/-! ## August 1st, dropped in September -/

def berlinCatalog : Catalog := { cityFile "Berlin" with tableStats := [⟨1, 10, 100⟩] }

def berlinTuple : ℕ → String := fun i => ["Berlin", "2026", "8", "1"].getD i ""

/-- Without the cursor guard. -/
def berlinArgs : DropArgs where
  tableId := 1
  schemaName := "main"
  tableName := "events"
  spec := ⟨5, cityKeys⟩
  cutoff := 0
  manifest := true
  maxFiles := 10000
  execute := true
  noViaduckGuard := true
  stateSchema := "viaduck"
  stateTable := "cursors"
  campaign := ""

/-- Nobody else is there, and nothing fails. -/
def calmTurn : TurnWorld where
  overBudget := false
  cursorTable := false
  beforeGuard := []
  guardFails := none
  beforeSelection := []
  selectionFails := none
  schedule _ := []
  fates _ := .runs
  server := ⟨"read committed", fun _ => 0, fun _ => false, fun _ => false, fun _ => true⟩

def berlinLeaves : LeafArgs :=
  ⟨"", "leaves.json", some (printedManifest septemberFirst berlinTable 1788220800000000 berlinListing)⟩

def berlinRun : Run :=
  (berlinArgs.setUp berlinTable berlinLeaves 1788220800000000).loop 3 (fun _ => calmTurn) berlinWork.2 0 true
    berlinCatalog

theorem berlinWork_eq_ok : campaignWork septemberFirst 1788998400000000 berlinTable berlinLeaves
    ⟨"", none, false⟩ berlinCatalog = .ok berlinWork := by
  have hlive : (⟨5, cityKeys⟩ : PartitionSpec).Live := ⟨by decide, by decide⟩
  have htuple : tupleFromValues ⟨5, cityKeys⟩ (cityKeys.map fun k => (k.address, .str (berlinTuple k.index))) =
      .ok ((⟨5, cityKeys⟩ : PartitionSpec).tupleMap berlinTuple) :=
    (tupleFromValues_eq_ok hlive berlinTuple).2 ⟨by decide +kernel, rfl⟩
  have hcheck : checkCutoff 1788998400000000 1788220800000000 berlinTable.spec.grain false = .ok ⟨⟩ := by
    decide +kernel
  exact (manifestWork_printed (by decide) hcheck).2
    ⟨rfl, .cons ⟨rfl, htuple⟩ .nil⟩

/-- The file of August 1st, 2026 is ended; its day was over a week before September 10th. -/
theorem berlin_bygone : ∃ turn, berlinRun.turns[0]? = some turn ∧ turn.ended = [7] ∧
    turn.ended ⊆ turn.attempted.map LeafFile.dataFileId ∧
    ∀ file ∈ turn.attempted, ∃ f ∈ (calmTurn.view turn.before).dataFiles.rows, f.leafFile = file ∧
      Bygone berlinTable (1788998400000000 - dropMinCutoffAge) (calmTurn.view turn.before) f := by
  have hended : berlinRun.turns[0]?.map Turn.ended = some [7] := by decide +kernel
  have hrun : dropPartitions (berlinArgs.setUp berlinTable berlinLeaves 1788220800000000) berlinWork.2
      (fun _ => calmTurn) berlinCatalog = .ok berlinRun := by
    have hageable : assertNoUnageableFiles 1 berlinCatalog = .ok ⟨⟩ := by decide +kernel
    have hidentifiers : berlinArgs.checkIdentifiers = .ok ⟨⟩ := by decide +kernel
    have hfloor : floorSnapshot 1788220800000000 berlinCatalog = .ok 3 := by decide +kernel
    refine bind_eq_ok.2 ⟨⟨⟩, mapError_eq_ok.2 hageable, bind_eq_ok.2 ⟨⟨⟩, hidentifiers, ?_⟩⟩
    exact bind_eq_ok.2 ⟨3, hfloor, rfl⟩
  obtain ⟨turn, hturn, heq⟩ := Option.map_eq_some_iff.1 hended
  exact ⟨turn, hturn, heq, campaign_drops_bygone berlinWork_eq_ok rfl hrun 0 turn hturn⟩

end Millpond.Maintenance
