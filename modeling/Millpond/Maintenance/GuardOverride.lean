import Millpond.Maintenance.Campaign
import Millpond.Maintenance.PlanAgreement
import Millpond.Lib.Lockstep

set_option autoImplicit false

/-! # Running without the cursor guard

Two runs with `--no-viaduck-guard`, on catalogs and in worlds that are the same but for viaduck's
cursor table. Neither stops for the cursors, and the transaction of a drop does not read them; what
is left is the pre-check of each leaf. -/

namespace Millpond.Maintenance

open Prog ReadCommitted

/-! ## Worlds that are the same but for the cursors -/

/-- The DuckLake commits among the transactions. -/
def commitsOf (txs : List OtherTx) : List Commit :=
  txs.filterMap fun
    | .commit k => some k
    | .cursors _ => none

/-- Two turns in which everything but the cursor table goes the same way. -/
structure TurnWorld.SameButCursors (w w' : TurnWorld) : Prop where
  overBudget : w.overBudget = w'.overBudget
  beforeGuard : commitsOf w.beforeGuard = commitsOf w'.beforeGuard
  guardFails : w.guardFails = w'.guardFails
  beforeSelection : commitsOf w.beforeSelection = commitsOf w'.beforeSelection
  selectionFails : w.selectionFails = w'.selectionFails
  schedule : ∀ n, commitsOf (w.schedule n) = commitsOf (w'.schedule n)
  fates : w.fates = w'.fates
  server : w.server = w'.server

theorem CursorsOnly.symm {c c' : Catalog} (h : CursorsOnly c c') : CursorsOnly c' c := by
  unfold CursorsOnly at h ⊢
  rw [h]

theorem keptByWrites_cursorsOnly : KeptByWrites Write CursorsOnly := by
  intro w c c' h
  have hkept : ∀ w : Write, CursorsOnly (w.apply c) (w.apply { c with cursors := c'.cursors }) := by
    intro w
    cases w <;> rfl
  rw [h]
  exact hkept w

/-- A commit lands on both, or on neither. -/
theorem land_commit_cursorsOnly (own : List Write) (k : Commit) {c c' : Catalog}
    (h : CursorsOnly c c') : CursorsOnly (land own c (.commit k)) (land own c' (.commit k)) := by
  have hnext : k.Next c' ↔ k.Next c := by
    unfold Commit.Next
    rw [h.newest]
  simp only [land, hnext]
  split
  · rw [h]
    rfl
  · exact h

/-- Only the commits move what is not cursors. -/
theorem lands_commitsOf (own : List Write) (txs : List OtherTx) {c c' : Catalog}
    (h : CursorsOnly c c') :
    CursorsOnly (txs.foldl (land own) c)
      ((commitsOf txs).foldl (fun c k => land own c (.commit k)) c') := by
  induction txs generalizing c c' with
  | nil => exact h
  | cons tx rest ih =>
      cases tx with
      | commit k => exact ih (land_commit_cursorsOnly own k h)
      | cursors rows =>
          have hmove : CursorsOnly (land own c (.cursors rows)) c := CursorsOnly.symm rfl
          exact ih (hmove.trans h)

theorem lands_cursorsOnly (own : List Write) {txs txs' : List OtherTx}
    (htxs : commitsOf txs = commitsOf txs') {c c' : Catalog} (h : CursorsOnly c c') :
    CursorsOnly (txs.foldl (land own) c) (txs'.foldl (land own) c') := by
  have hfirst := lands_commitsOf own txs h
  rw [htxs] at hfirst
  exact hfirst.trans (lands_commitsOf own txs' (.refl c')).symm

/-! ## A drop without the guard -/

section Drop

variable {d : LeafDrop}

/-- The sessions of two drops. -/
abbrev DropTwin (s t : Session Catalog Write PgError DropStatement) : Prop := Twin CursorsOnly s t

/-- What does not read the cursors does not tell the catalogs apart. -/
theorem eq_of_blind {α : Type} {read : Catalog → α}
    (hread : ∀ c cursors, read { c with cursors := cursors } = read c) {c c' : Catalog}
    (h : CursorsOnly c c') : read c = read c' := by
  rw [h]
  exact (hread c c'.cursors).symm

theorem lockstep_blindQuery {α : Type} {label : DropStatement} {read : Catalog → α}
    (hread : ∀ c cursors, read { c with cursors := cursors } = read c) :
    Lockstep DropTwin (query label read : DropM α) :=
  lockstep_query keptByWrites_cursorsOnly fun _ _ h => eq_of_blind hread h

theorem lockstep_blindStatement {α : Type} {label : DropStatement}
    {run : Catalog → Except DropError (α × List Write)}
    (hrun : ∀ c cursors, run { c with cursors := cursors } = run c) :
    Lockstep DropTwin (statement label run : DropM α) :=
  lockstep_statement keptByWrites_cursorsOnly fun _ _ h => eq_of_blind hrun h

theorem lockstep_checkIsolation (isolation : String) (check : Bool) :
    Lockstep DropTwin (checkIsolation isolation check) :=
  .ite ((lockstep_blindQuery fun _ _ => rfl).bind fun _ => .ite (lockstep_pure _) (lockstep_throw _))
    (lockstep_pure _)

theorem lockstep_assertCatalogVersion : Lockstep DropTwin assertCatalogVersion :=
  (lockstep_blindQuery fun _ _ => rfl).bind fun _ => .ite (lockstep_pure _) (lockstep_throw _)

theorem lockstep_assertNoLiveVectors : Lockstep DropTwin (assertNoLiveVectors d) :=
  (lockstep_blindQuery fun _ _ => rfl).bind fun _ => .ite (lockstep_pure _) (lockstep_throw _)

theorem lockstep_readBaseline : Lockstep DropTwin readBaseline := by
  refine (lockstep_blindQuery fun _ _ => rfl).bind fun base => ?_
  cases base with
  | none => exact lockstep_throw _
  | some row => exact lockstep_pure row

/-- With the guard off the predicate is `TRUE`, whatever the cursors. -/
theorem guardPredicate_off (hoff : d.guarded = false) (c : Catalog) (beginSnapshot : ℕ) :
    guardPredicate d.guarded c beginSnapshot = some true := by
  rw [hoff]
  rfl

theorem lockstep_endLeafFiles (hoff : d.guarded = false) (snap : ℕ) :
    Lockstep DropTwin (endLeafFiles d snap) := by
  refine lockstep_blindStatement fun c cursors => ?_
  have hendable : d.endable { c with cursors := cursors } = d.endable c := by
    funext f
    simp only [LeafDrop.endable, guardPredicate_off hoff]
  rw [hendable]

theorem lockstep_classifySkipped (hoff : d.guarded = false) (skipped : List ℕ) :
    Lockstep DropTwin (classifySkipped d skipped) := by
  refine .ite (lockstep_pure _) ((lockstep_blindQuery fun c cursors => ?_).bind fun info => ?_)
  · simp only [skippedInfo, guardPredicate_off hoff]
  · refine .ite ((lockstep_blindQuery fun c cursors => ?_).bind fun _ => ?_) ?_
    · simp only [guardPredicate_off hoff]
    · exact .ite (lockstep_throw _) (lockstep_throw _)
    · exact .ite (lockstep_throw _) (lockstep_pure _)

theorem lockstep_verifyRewind (hoff : d.guarded = false) (snap : ℕ) :
    Lockstep DropTwin (verifyRewind d snap) := by
  unfold verifyRewind
  rw [hoff]
  exact lockstep_pure _

theorem lockstep_decrementStats (rows bytes : ℤ) :
    Lockstep DropTwin (decrementStats d rows bytes) :=
  (lockstep_blindStatement fun _ _ => rfl).bind fun _ =>
    .ite (lockstep_pure _) ((lockstep_blindQuery fun _ _ => rfl).bind fun _ => lockstep_throw _)

theorem lockstep_endLeaf (hoff : d.guarded = false) (base : SnapshotRow) (clock : ℤ) :
    Lockstep DropTwin (endLeaf d base clock) := by
  refine Lockstep.bind (lockstep_blindStatement fun _ _ => rfl) fun _ => ?_
  refine (lockstep_endLeafFiles hoff _).bind fun updated => ?_
  refine (lockstep_classifySkipped hoff _).bind fun _ => .ite (lockstep_throw _) ?_
  refine (lockstep_verifyRewind hoff _).bind fun _ => ?_
  refine (lockstep_decrementStats _ _).bind fun _ => ?_
  exact (lockstep_blindStatement fun _ _ => rfl).bind fun _ => lockstep_pure _

theorem lockstep_dropLeafTxn (hoff : d.guarded = false) (isolation : String) (clock : ℤ)
    (check : Bool) : Lockstep DropTwin (dropLeafTxn d isolation clock check) :=
  lockstep_transaction keptByWrites_cursorsOnly
    ((lockstep_checkIsolation isolation check).bind fun _ =>
      lockstep_assertCatalogVersion.bind fun _ =>
        lockstep_assertNoLiveVectors.bind fun _ =>
          lockstep_readBaseline.bind fun base => lockstep_endLeaf hoff base clock)

theorem lockstep_releaseLock : Lockstep DropTwin releaseLock :=
  (lockstep_blindQuery fun _ _ => rfl).tryCatch fun _ => lockstep_pure _

theorem lockstep_dropAttempt (hoff : d.guarded = false) (server : DropServer) (attempt : ℕ)
    (check : Bool) : Lockstep DropTwin (dropAttempt d server attempt check) := by
  have hrefresh : Lockstep DropTwin (lockRefresh (server.lockAcquired attempt)) :=
    (lockstep_blindQuery fun _ _ => rfl).bind fun _ => (lockstep_blindQuery fun _ _ => rfl).bind
      fun _ => .ite (lockstep_pure _) (lockstep_throw _)
  have hreconnect : Lockstep DropTwin (reconnect (server.closed attempt)) :=
    .ite (lockstep_blindQuery fun _ _ => rfl) (lockstep_pure _)
  refine Lockstep.bind (Lockstep.tryCatch ?_ fun e => ?_) fun result => ?_
  · exact hreconnect.bind fun _ => hrefresh.bind fun _ =>
      (lockstep_dropLeafTxn hoff _ _ _).bind fun _ => lockstep_pure _
  · exact lockstep_releaseLock.bind fun _ => lockstep_throw e
  · exact lockstep_releaseLock.bind fun _ => lockstep_pure result

theorem lockstep_dropAttempts (hoff : d.guarded = false) (server : DropServer) (left : ℕ) :
    ∀ (attempt lockAttempts : ℕ) (check : Bool),
      Lockstep DropTwin (dropAttempts d server left attempt lockAttempts check) := by
  induction left with
  | zero => exact fun _ _ _ => lockstep_throw _
  | succ left ih =>
      intro attempt lockAttempts check
      refine .ite (lockstep_throw _) ((lockstep_dropAttempt hoff _ _ _).tryCatch fun e => ?_)
      cases e with
      | lockContended => exact .ite (lockstep_throw _) (ih _ _ _)
      | pg e => exact .ite (ih _ _ _) (lockstep_throw _)
      | abort reason => exact lockstep_throw _
      | skip reason => exact lockstep_throw _

theorem lockstep_dropLeafWithRetries (hoff : d.guarded = false) (server : DropServer)
    (check : Bool) : Lockstep DropTwin (dropLeafWithRetries d server check) :=
  lockstep_dropAttempts hoff server dropMaxAttempts 1 0 check

end Drop

/-! ## The pre-check -/

/-- The guard of a run with `--no-viaduck-guard`: the smallest cursor there is, 0 when all cursors are
    NULL, and `_NO_GUARD` only when there is no store or no row. -/
def overrideGuard (table : Bool) (c : Catalog) : ℕ :=
  if table = true ∧ c.cursors ≠ [] then (minCursor c).getD 0 else noGuard

/-- The files of a leaf that gets as far as the pre-check: below the cutoff, and not oversized. -/
def DropArgs.candidates (args : DropArgs) (floorSnap : ℤ) (tupleMap : TupleMap) (w : TurnWorld)
    (c : Catalog) : List LeafFile :=
  match composePartTs args.spec tupleMap, args.select floorSnap tupleMap w c with
  | .ok partTs, .ok files =>
      if partTs.all (args.cutoff ≤ ·) = true ∨ args.maxFiles < files.length then [] else files
  | _, _ => []

/-- The pre-check holds the leaf back: one of its files begins at or after the guard. -/
def DropArgs.heldBack (args : DropArgs) (floorSnap : ℤ) (tupleMap : TupleMap) (w : TurnWorld)
    (c : Catalog) : Bool :=
  w.guardFails.isNone && (args.candidates floorSnap tupleMap w c).any fun f =>
    overrideGuard w.cursorTable (w.guardView c) ≤ f.beginSnapshot

/-- The guard of an overridden run is read, whatever the store holds. -/
theorem cursorGuard_override {stateSchema stateTable : String} (floorTime : ℤ) (table : Bool)
    (c : Catalog) (hschema : isSafeIdentifier stateSchema = true)
    (htable : isSafeIdentifier stateTable = true) :
    ∃ guard, cursorGuard stateSchema stateTable floorTime true table c = .ok guard ∧
      guard.snapshotId = overrideGuard table c := by
  have hrows : (if table then cursorRows c else []).isEmpty = !decide (table = true ∧ c.cursors ≠ []) := by
    cases table with
    | false => rfl
    | true => cases hcursors : c.cursors <;> simp [cursorRows, hcursors]
  unfold cursorGuard overrideGuard
  simp only [hschema, htable, Bool.not_true, Bool.false_eq_true, if_false, hrows, if_true,
    Bool.and_false]
  by_cases hstore : table = true ∧ c.cursors ≠ []
  · refine ⟨_, by rw [if_neg (by simp [hstore])], ?_⟩
    have hmin : (cursorRows c).filterMap CursorRow.lastSnapshotId = c.cursors.filterMap id := by
      unfold cursorRows
      rw [List.filterMap_map]
      rfl
    rw [if_pos hstore]
    simp only [hstore.1, if_true, hmin]
    rfl
  · refine ⟨_, by rw [if_pos (by simp [hstore])], ?_⟩
    rw [if_neg hstore]

/-- Two preparations that come to the same: the same error, a leaf that stays, or a drop of the same
    files. -/
inductive SamePrepared : Except RunError Prepared → Except RunError Prepared → Prop where
  | error (e : RunError) : SamePrepared (.error e) (.error e)
  | stays {outcome outcome' : TurnOutcome} (h : outcome.isRaised = false)
      (h' : outcome'.isRaised = false) : SamePrepared (.ok (.stays outcome)) (.ok (.stays outcome'))
  | drops (files : List LeafFile) : SamePrepared (.ok (.drops files)) (.ok (.drops files))

variable {args : DropArgs}

theorem check_same (guard guard' : Guard) (files : List LeafFile)
    (h : ¬ args.maxFiles < files.length →
      (guard.blocks files).isEmpty = (guard'.blocks files).isEmpty) :
    SamePrepared (args.check guard files) (args.check guard' files) := by
  unfold DropArgs.check
  by_cases hsize : args.maxFiles < files.length
  · simp only [if_pos hsize]
    cases args.manifest with
    | true => exact .stays rfl rfl
    | false => exact .error _
  · simp only [if_neg hsize]
    rw [h hsize]
    split
    · exact .stays rfl rfl
    · split
      · exact .stays rfl rfl
      · split
        · exact .stays rfl rfl
        · exact .drops files

/-! ## One turn of two runs -/

/-- The arguments of a run without the guard; the identifiers of the store were checked. -/
structure DropArgs.Unguarded (args : DropArgs) : Prop where
  noViaduckGuard : args.noViaduckGuard = true
  schema : isSafeIdentifier args.stateSchema = true
  table : isSafeIdentifier args.stateTable = true

section Turn

variable {floorSnap : ℤ} {leaf : String × TupleMap} {w w' : TurnWorld} {c c' : Catalog}

theorem view_cursorsOnly (hw : w.SameButCursors w') (hc : CursorsOnly c c') :
    CursorsOnly (w.view c) (w'.view c') :=
  lands_cursorsOnly [] hw.beforeSelection (lands_cursorsOnly [] hw.beforeGuard hc)

theorem select_eq (hw : w.SameButCursors w') (hc : CursorsOnly c c') (tupleMap : TupleMap) :
    args.select floorSnap tupleMap w c = args.select floorSnap tupleMap w' c' := by
  have hfiles : ∀ tuple, selectLeafFiles tuple args.tableId (w.view c)
      = selectLeafFiles tuple args.tableId (w'.view c') := fun tuple =>
    eq_of_blind (fun _ _ => rfl) (view_cursorsOnly hw hc)
  unfold DropArgs.select
  rw [hw.selectionFails]
  simp only [hfiles]

theorem candidates_eq (hw : w.SameButCursors w') (hc : CursorsOnly c c') (tupleMap : TupleMap) :
    args.candidates floorSnap tupleMap w c = args.candidates floorSnap tupleMap w' c' := by
  unfold DropArgs.candidates
  rw [select_eq hw hc]

theorem readGuard_unguarded (hargs : args.Unguarded) (hfails : w.guardFails = none) (c : Catalog) :
    ∃ guard, args.readGuard w c = .ok guard ∧
      guard.snapshotId = overrideGuard w.cursorTable (w.guardView c) := by
  unfold DropArgs.readGuard
  rw [hfails, hargs.noViaduckGuard]
  exact cursorGuard_override _ _ _ hargs.schema hargs.table

/-- What the pre-check blocks of the candidates. -/
theorem isEmpty_blocks_eq {guard : Guard} {files : List LeafFile}
    (hguard : guard.snapshotId = overrideGuard w.cursorTable (w.guardView c))
    (hfails : w.guardFails = none) (hfiles : args.candidates floorSnap leaf.2 w c = files) :
    (guard.blocks files).isEmpty = !args.heldBack floorSnap leaf.2 w c := by
  unfold DropArgs.heldBack Guard.blocks
  rw [hfiles, hfails, hguard, Bool.eq_iff_iff]
  simp

/-- What a turn does before the drop, in steps: the guard is read, the files are selected. -/
theorem prepare_unguarded (hargs : args.Unguarded) (hfails : w.guardFails = none) {partTs : Option ℤ}
    (hpart : composePartTs args.spec leaf.2 = .ok partTs)
    (hbelow : ¬ partTs.all (args.cutoff ≤ ·) = true) {files : List LeafFile}
    (hfiles : args.select floorSnap leaf.2 w c = .ok files) :
    ∃ guard, args.prepare floorSnap leaf.2 w c = args.check guard files ∧
      (¬ args.maxFiles < files.length →
        (guard.blocks files).isEmpty = !args.heldBack floorSnap leaf.2 w c) := by
  obtain ⟨guard, hread, hguard⟩ := readGuard_unguarded hargs hfails c
  refine ⟨guard, ?_, fun hsize => isEmpty_blocks_eq hguard hfails ?_⟩
  · unfold DropArgs.prepare
    rw [hpart]
    show (if _ then _ else _) = _
    rw [if_neg hbelow, hread, hfiles]
    rfl
  · unfold DropArgs.candidates
    rw [hpart, hfiles]
    exact if_neg (not_or.2 ⟨hbelow, hsize⟩)

theorem heldBack_of_candidates_nil (h : args.candidates floorSnap leaf.2 w c = []) :
    args.heldBack floorSnap leaf.2 w c = false := by
  unfold DropArgs.heldBack
  rw [h]
  exact Bool.and_false _

variable (floorSnap) in
/-- The preparations of the two runs, which only the pre-check can tell apart: a leaf that does not get
    as far comes to the same. -/
theorem prepare_cases (hargs : args.Unguarded) (hw : w.SameButCursors w') (hc : CursorsOnly c c') :
    (SamePrepared (args.prepare floorSnap leaf.2 w c) (args.prepare floorSnap leaf.2 w' c') ∧
        args.heldBack floorSnap leaf.2 w c = args.heldBack floorSnap leaf.2 w' c') ∨
      ∃ guard guard' files, ¬ args.maxFiles < files.length ∧
        args.prepare floorSnap leaf.2 w c = args.check guard files ∧
        args.prepare floorSnap leaf.2 w' c' = args.check guard' files ∧
        (guard.blocks files).isEmpty = !args.heldBack floorSnap leaf.2 w c ∧
        (guard'.blocks files).isEmpty = !args.heldBack floorSnap leaf.2 w' c' := by
  have hcandidates : args.candidates floorSnap leaf.2 w c = args.candidates floorSnap leaf.2 w' c' :=
    candidates_eq hw hc leaf.2
  have hnone : args.candidates floorSnap leaf.2 w c = [] →
      args.heldBack floorSnap leaf.2 w c = args.heldBack floorSnap leaf.2 w' c' := fun h => by
    rw [heldBack_of_candidates_nil h, heldBack_of_candidates_nil (hcandidates.symm.trans h)]
  have hselect : args.select floorSnap leaf.2 w c = args.select floorSnap leaf.2 w' c' :=
    select_eq hw hc leaf.2
  cases hpart : composePartTs args.spec leaf.2 with
  | error e =>
      refine .inl ⟨?_, hnone ?_⟩
      · unfold DropArgs.prepare
        rw [hpart]
        exact .error _
      · unfold DropArgs.candidates
        rw [hpart]
  | ok partTs =>
      by_cases hbelow : partTs.all (args.cutoff ≤ ·) = true
      · refine .inl ⟨?_, hnone ?_⟩
        · unfold DropArgs.prepare
          rw [hpart]
          show SamePrepared (if _ then _ else _) (if _ then _ else _)
          rw [if_pos hbelow, if_pos hbelow]
          exact .stays rfl rfl
        · unfold DropArgs.candidates
          rw [hpart]
          cases args.select floorSnap leaf.2 w c with
          | error e => rfl
          | ok files => exact if_pos (.inl hbelow)
      · cases hfails : w.guardFails with
        | some e =>
            have hfails' := hw.guardFails.symm.trans hfails
            refine .inl ⟨?_, ?_⟩
            · unfold DropArgs.prepare DropArgs.readGuard
              rw [hpart, hfails, hfails']
              show SamePrepared (if _ then _ else _) (if _ then _ else _)
              rw [if_neg hbelow, if_neg hbelow]
              exact .error _
            · unfold DropArgs.heldBack
              rw [hfails, hfails']
              rfl
        | none =>
            have hfails' := hw.guardFails.symm.trans hfails
            cases hfiles : args.select floorSnap leaf.2 w c with
            | error e =>
                obtain ⟨guard, hread, -⟩ := readGuard_unguarded hargs hfails c
                obtain ⟨guard', hread', -⟩ := readGuard_unguarded hargs hfails' c'
                refine .inl ⟨?_, hnone ?_⟩
                · unfold DropArgs.prepare
                  rw [hpart]
                  show SamePrepared (if _ then _ else _) (if _ then _ else _)
                  rw [if_neg hbelow, if_neg hbelow, hread, hread', ← hselect, hfiles]
                  exact .error _
                · unfold DropArgs.candidates
                  rw [hpart, hfiles]
            | ok files =>
                have hfiles' := hselect.symm.trans hfiles
                obtain ⟨guard, hcheck, hblocks⟩ := prepare_unguarded hargs hfails hpart hbelow hfiles
                obtain ⟨guard', hcheck', hblocks'⟩ :=
                  prepare_unguarded hargs hfails' hpart hbelow hfiles'
                by_cases hsize : args.maxFiles < files.length
                · refine .inl ⟨?_, hnone ?_⟩
                  · rw [hcheck, hcheck']
                    exact check_same guard guard' files fun h => absurd hsize h
                  · unfold DropArgs.candidates
                    rw [hpart, hfiles]
                    exact if_pos (.inr hsize)
                · exact .inr ⟨guard, guard', files, hsize, hcheck, hcheck', hblocks hsize,
                    hblocks' hsize⟩

theorem prepare_same (hargs : args.Unguarded) (hw : w.SameButCursors w') (hc : CursorsOnly c c')
    (h : args.heldBack floorSnap leaf.2 w c = args.heldBack floorSnap leaf.2 w' c') :
    SamePrepared (args.prepare floorSnap leaf.2 w c) (args.prepare floorSnap leaf.2 w' c') := by
  rcases prepare_cases floorSnap hargs hw hc with ⟨hsame, -⟩ | hcheck
  · exact hsame
  · obtain ⟨guard, guard', files, hsize, hprepare, hprepare', hblocks, hblocks'⟩ := hcheck
    rw [hprepare, hprepare']
    exact check_same guard guard' files fun _ => by rw [hblocks, hblocks', h]

/-- Two ends of a turn that only differ in the cursors. -/
structure SameEnd (e e' : TurnEnd) : Prop where
  partition : e.turn.partition = e'.turn.partition
  attempted : e.turn.attempted = e'.turn.attempted
  commits : e.turn.commits = e'.turn.commits
  raised : e.turn.outcome.isRaised = e'.turn.outcome.isRaised
  firstTxn : e.firstTxn = e'.firstTxn
  catalog : CursorsOnly e.catalog e'.catalog

/-- The drop of a leaf does not look at the cursors. -/
theorem dropTurn_same (hargs : args.Unguarded) (hw : w.SameButCursors w') (hc : CursorsOnly c c')
    (files : List LeafFile) (firstTxn : Bool) :
    SameEnd (args.dropTurn leaf files w firstTxn c) (args.dropTurn leaf files w' firstTxn c') := by
  have hoff : (args.leafDrop leaf.1 files).guarded = false := by
    show (!args.noViaduckGuard) = false
    rw [hargs.noViaduckGuard]
    rfl
  have htwin : DropTwin (dropSession (w.view c) w.schedule w.fates)
      (dropSession (w'.view c') w'.schedule w'.fates) :=
    ⟨view_cursorsOnly hw hc, rfl, fun n own _ _ h => lands_cursorsOnly own (hw.schedule n) h,
      hw.fates, rfl, rfl⟩
  have hdrop := lockstep_dropLeafWithRetries hoff w.server firstTxn _ _ htwin
  unfold DropArgs.dropTurn
  dsimp only
  rw [← hw.server]
  generalize dropLeafWithRetries (args.leafDrop leaf.1 files) w.server firstTxn
    (dropSession (w.view c) w.schedule w.fates) = first at hdrop
  generalize dropLeafWithRetries (args.leafDrop leaf.1 files) w.server firstTxn
    (dropSession (w'.view c') w'.schedule w'.fates) = second at hdrop
  cases hdrop with
  | ok result h => exact ⟨rfl, rfl, h.commits, rfl, rfl, h.committed⟩
  | error e h => cases e <;> exact ⟨rfl, rfl, h.commits, rfl, rfl, h.committed⟩

/-- With the same verdict, the turns of the two runs do the same. -/
theorem runTurn_same (hargs : args.Unguarded) (hw : w.SameButCursors w') (hc : CursorsOnly c c')
    (h : args.heldBack floorSnap leaf.2 w c = args.heldBack floorSnap leaf.2 w' c')
    (firstTxn : Bool) :
    SameEnd (args.runTurn floorSnap leaf w firstTxn c) (args.runTurn floorSnap leaf w' firstTxn c') := by
  have hprepare := prepare_same hargs hw hc h
  unfold DropArgs.runTurn
  generalize args.prepare floorSnap leaf.2 w c = first at hprepare
  generalize args.prepare floorSnap leaf.2 w' c' = second at hprepare
  cases hprepare with
  | error e => exact ⟨rfl, rfl, rfl, rfl, rfl, view_cursorsOnly hw hc⟩
  | stays hcalm hcalm' =>
      exact ⟨rfl, rfl, rfl, hcalm.trans hcalm'.symm, rfl, view_cursorsOnly hw hc⟩
  | drops files => exact dropTurn_same hargs hw hc files firstTxn

/-- The files that a preparation leads to the drop. -/
def preparedFiles : Except RunError Prepared → List LeafFile
  | .ok (.drops files) => files
  | _ => []

theorem attempted_runTurn (firstTxn : Bool) :
    (args.runTurn floorSnap leaf w firstTxn c).turn.attempted =
      preparedFiles (args.prepare floorSnap leaf.2 w c) := by
  unfold DropArgs.runTurn
  split
  · next hprepare => rw [hprepare]; rfl
  · next hprepare => rw [hprepare]; rfl
  · next hprepare =>
      rw [hprepare]
      unfold DropArgs.dropTurn
      dsimp only
      split <;> rfl

theorem preparedFiles_check (hexecute : args.execute = true) {guard : Guard} {files : List LeafFile}
    (hsize : ¬ args.maxFiles < files.length) :
    preparedFiles (args.check guard files) =
      if (guard.blocks files).isEmpty then files else [] := by
  unfold DropArgs.check
  simp only [if_neg hsize, hexecute, Bool.not_true, Bool.false_eq_true, if_false]
  cases files with
  | nil => simp [preparedFiles]
  | cons f rest => cases (guard.blocks (f :: rest)).isEmpty <;> rfl

/-- The turns attempt the same drop only under the same verdict. -/
theorem heldBack_eq_of_attempted (hargs : args.Unguarded) (hexecute : args.execute = true)
    (hw : w.SameButCursors w') (hc : CursorsOnly c c') {firstTxn firstTxn' : Bool}
    (h : (args.runTurn floorSnap leaf w firstTxn c).turn.attempted =
      (args.runTurn floorSnap leaf w' firstTxn' c').turn.attempted) :
    args.heldBack floorSnap leaf.2 w c = args.heldBack floorSnap leaf.2 w' c' := by
  rcases prepare_cases floorSnap hargs hw hc with ⟨-, hsame⟩ | hcheck
  · exact hsame
  · obtain ⟨guard, guard', files, hsize, hprepare, hprepare', hblocks, hblocks'⟩ := hcheck
    rw [attempted_runTurn, attempted_runTurn, hprepare, hprepare',
      preparedFiles_check hexecute hsize, preparedFiles_check hexecute hsize, hblocks, hblocks'] at h
    cases files with
    | nil =>
        have hnone : ∀ guard : Guard, (guard.blocks []).isEmpty = true := fun _ => rfl
        rw [hnone] at hblocks hblocks'
        exact Bool.not_inj (hblocks.symm.trans hblocks')
    | cons f rest =>
        cases hheld : args.heldBack floorSnap leaf.2 w c <;>
          cases hheld' : args.heldBack floorSnap leaf.2 w' c' <;> simp_all

end Turn

/-! ## The runs -/

/-- Two runs without the guard, whose worlds are the same but for the cursors. -/
structure SameRuns (args : DropArgs) (world world' : ℕ → TurnWorld) (c c' : Catalog) : Prop where
  noViaduckGuard : args.noViaduckGuard = true
  execute : args.execute = true
  world : ∀ n, (world n).SameButCursors (world' n)
  catalog : CursorsOnly c c'

/-- From the `n`-th turn on, turn by turn the pre-check holds the leaf back in both runs or in
    neither. -/
def SameVerdicts (args : DropArgs) (world world' : ℕ → TurnWorld) (floorSnap : ℤ) (n : ℕ)
    (run run' : Run) : Prop :=
  ∀ i turn turn', run.turns[i]? = some turn → run'.turns[i]? = some turn' →
    args.heldBack floorSnap turn.tupleMap (world (n + i)) turn.before =
      args.heldBack floorSnap turn'.tupleMap (world' (n + i)) turn'.before

section Loop

variable {floorSnap : ℤ} {world world' : ℕ → TurnWorld}

@[simp] theorem runTurn_before (leaf : String × TupleMap) (w : TurnWorld) (firstTxn : Bool)
    (c : Catalog) : (args.runTurn floorSnap leaf w firstTxn c).turn.before = c := by
  unfold DropArgs.runTurn
  split
  · rfl
  · rfl
  · unfold DropArgs.dropTurn
    dsimp only
    split <;> rfl

@[simp] theorem runTurn_tupleMap (leaf : String × TupleMap) (w : TurnWorld) (firstTxn : Bool)
    (c : Catalog) : (args.runTurn floorSnap leaf w firstTxn c).turn.tupleMap = leaf.2 := by
  unfold DropArgs.runTurn
  split
  · rfl
  · rfl
  · unfold DropArgs.dropTurn
    dsimp only
    split <;> rfl

theorem attempts_cons (turn : Turn) (run : Run) :
    (run.cons turn).attempts = (turn.partition, turn.attempted) :: run.attempts := rfl

theorem drops_cons (turn : Turn) (run : Run) :
    (run.cons turn).drops =
      if turn.ended.isEmpty then run.drops else (turn.partition, turn.ended) :: run.drops := by
  unfold Run.drops Run.cons
  dsimp only
  cases h : turn.ended.isEmpty <;> simp [h]

theorem SameVerdicts.head {n : ℕ} {turn turn' : Turn} {run run' : Run}
    (h : SameVerdicts args world world' floorSnap n (run.cons turn) (run'.cons turn')) :
    args.heldBack floorSnap turn.tupleMap (world n) turn.before =
      args.heldBack floorSnap turn'.tupleMap (world' n) turn'.before := h 0 turn turn' rfl rfl

theorem SameVerdicts.tail {n : ℕ} {turn turn' : Turn} {run run' : Run}
    (h : SameVerdicts args world world' floorSnap n (run.cons turn) (run'.cons turn')) :
    SameVerdicts args world world' floorSnap (n + 1) run run' := by
  intro i t t' ht ht'
  have hnext := h (i + 1) t t' ht ht'
  rwa [Nat.add_assoc, Nat.add_comm 1 i]

theorem sameVerdicts_cons {n : ℕ} {turn turn' : Turn} {run run' : Run}
    (hhead : args.heldBack floorSnap turn.tupleMap (world n) turn.before =
      args.heldBack floorSnap turn'.tupleMap (world' n) turn'.before)
    (htail : SameVerdicts args world world' floorSnap (n + 1) run run') :
    SameVerdicts args world world' floorSnap n (run.cons turn) (run'.cons turn') := by
  intro i t t' ht ht'
  cases i with
  | zero =>
      obtain rfl := Option.some.inj ht
      obtain rfl := Option.some.inj ht'
      exact hhead
  | succ i =>
      have hnext := htail i t t' ht ht'
      rwa [Nat.add_assoc, Nat.add_comm 1 i] at hnext

/-- One turn of a loop with budget left, and what follows it. -/
theorem loop_cons (leaf : String × TupleMap) (rest : List (String × TupleMap)) {n : ℕ}
    (hbudget : (world n).overBudget = false) (firstTxn : Bool) (c : Catalog) :
    args.loop floorSnap world (leaf :: rest) n firstTxn c =
      let done := args.runTurn floorSnap leaf (world n) firstTxn c
      (if done.turn.outcome.isRaised then ⟨[], done.catalog⟩
        else args.loop floorSnap world rest (n + 1) done.firstTxn done.catalog).cons done.turn := by
  rw [DropArgs.loop, if_neg (by rw [hbudget]; exact Bool.false_ne_true)]
  dsimp only
  split <;> rfl

/-- The runs attempt the same drops exactly under the same verdicts, and then they drop the same. -/
structure Matched (args : DropArgs) (world world' : ℕ → TurnWorld) (floorSnap : ℤ) (n : ℕ)
    (run run' : Run) : Prop where
  attempts_iff : run.attempts = run'.attempts ↔ SameVerdicts args world world' floorSnap n run run'
  drops : SameVerdicts args world world' floorSnap n run run' → run.drops = run'.drops

theorem matched_nil (n : ℕ) (c c' : Catalog) :
    Matched args world world' floorSnap n ⟨[], c⟩ ⟨[], c'⟩ :=
  ⟨⟨fun _ i turn turn' hturn => absurd hturn (by simp), fun _ => rfl⟩, fun _ => rfl⟩

variable {n : ℕ} {turn turn' : Turn} {run run' : Run}

theorem Matched.cons (hpartition : turn.partition = turn'.partition)
    (hattempted : turn.attempted = turn'.attempted) (hcommits : turn.commits = turn'.commits)
    (hverdict : args.heldBack floorSnap turn.tupleMap (world n) turn.before =
      args.heldBack floorSnap turn'.tupleMap (world' n) turn'.before)
    (h : Matched args world world' floorSnap (n + 1) run run') :
    Matched args world world' floorSnap n (run.cons turn) (run'.cons turn') := by
  have hended : turn.ended = turn'.ended := congrArg (List.flatMap endedIn) hcommits
  constructor
  · rw [attempts_cons, attempts_cons, hpartition, hattempted, List.cons.injEq]
    exact ⟨fun hsame => sameVerdicts_cons hverdict (h.attempts_iff.1 hsame.2),
      fun hsame => ⟨rfl, h.attempts_iff.2 hsame.tail⟩⟩
  · intro hsame
    rw [drops_cons, drops_cons, hpartition, hended, h.drops hsame.tail]

/-- Where the verdicts part, so do the attempts. -/
theorem matched_of_ne (hattempted : turn.attempted ≠ turn'.attempted)
    (hverdict : args.heldBack floorSnap turn.tupleMap (world n) turn.before ≠
      args.heldBack floorSnap turn'.tupleMap (world' n) turn'.before) :
    Matched args world world' floorSnap n (run.cons turn) (run'.cons turn') := by
  have hdiffer : ¬ SameVerdicts args world world' floorSnap n (run.cons turn) (run'.cons turn') :=
    fun hsame => hverdict hsame.head
  constructor
  · rw [attempts_cons, attempts_cons, List.cons.injEq, Prod.mk.injEq]
    exact ⟨fun hsame => absurd hsame.1.2 hattempted, fun hsame => absurd hsame hdiffer⟩
  · exact fun hsame => absurd hsame hdiffer

variable (floorSnap) in
theorem loop_matched (hargs : args.Unguarded) (hexecute : args.execute = true)
    (hworld : ∀ n, (world n).SameButCursors (world' n)) (work : List (String × TupleMap)) :
    ∀ (n : ℕ) (firstTxn : Bool) (c c' : Catalog), CursorsOnly c c' →
      Matched args world world' floorSnap n (args.loop floorSnap world work n firstTxn c)
        (args.loop floorSnap world' work n firstTxn c') := by
  induction work with
  | nil => exact fun n _ c c' _ => matched_nil n c c'
  | cons leaf rest ih =>
      intro n firstTxn c c' hc
      by_cases hbudget : (world n).overBudget = true
      · have hbudget' : (world' n).overBudget = true := (hworld n).overBudget.symm.trans hbudget
        rw [DropArgs.loop, DropArgs.loop, if_pos hbudget, if_pos hbudget']
        exact matched_nil n c c'
      · have hbudget : (world n).overBudget = false := by simpa using hbudget
        have hbudget' : (world' n).overBudget = false := (hworld n).overBudget.symm.trans hbudget
        rw [loop_cons leaf rest hbudget, loop_cons leaf rest hbudget']
        by_cases hverdict : args.heldBack floorSnap leaf.2 (world n) c =
            args.heldBack floorSnap leaf.2 (world' n) c'
        · have hend := runTurn_same hargs (hworld n) hc hverdict firstTxn
          refine Matched.cons hend.partition hend.attempted hend.commits ?_ ?_
          · rwa [runTurn_before, runTurn_tupleMap, runTurn_before, runTurn_tupleMap]
          · rw [hend.raised, hend.firstTxn]
            split
            · exact matched_nil _ _ _
            · exact ih _ _ _ _ hend.catalog
        · refine matched_of_ne ?_ ?_
          · exact fun hsame => hverdict (heldBack_eq_of_attempted hargs hexecute (hworld n) hc hsame)
          · rwa [runTurn_before, runTurn_tupleMap, runTurn_before, runTurn_tupleMap]

end Loop

theorem safe_of_checkIdentifiers {u : Unit} (h : args.checkIdentifiers = .ok u) :
    isSafeIdentifier args.stateSchema = true ∧ isSafeIdentifier args.stateTable = true := by
  unfold DropArgs.checkIdentifiers at h
  split at h
  · cases h
  · next hschema =>
      split at h
      · cases h
      · next htable => exact ⟨by simpa using hschema, by simpa using htable⟩

/-- The set-up of a run does not look at the cursors. -/
theorem dropPartitions_setup (args : DropArgs) (work : List (String × TupleMap)) (c : Catalog) :
    (∃ e, ∀ world c', CursorsOnly c c' → dropPartitions args work world c' = .error e) ∨
      ∃ floorSnap, isSafeIdentifier args.stateSchema = true ∧
        isSafeIdentifier args.stateTable = true ∧ floorSnapshot args.cutoff c = .ok floorSnap ∧
        ∀ world c', CursorsOnly c c' →
          dropPartitions args work world c' = .ok (args.loop floorSnap world work 0 true c') := by
  have hunageable : ∀ c', CursorsOnly c c' →
      assertNoUnageableFiles args.tableId c = assertNoUnageableFiles args.tableId c' :=
    fun c' h => eq_of_blind (fun _ _ => rfl) h
  have hfloor : ∀ c', CursorsOnly c c' →
      floorSnapshot args.cutoff c = floorSnapshot args.cutoff c' :=
    fun c' h => eq_of_blind (fun _ _ => rfl) h
  have hrun : ∀ world c', CursorsOnly c c' → dropPartitions args work world c' = (do
      (assertNoUnageableFiles args.tableId c).mapError .plan
      args.checkIdentifiers
      let floorSnap ← floorSnapshot args.cutoff c
      pure (args.loop floorSnap world work 0 true c')) := by
    intro world c' h
    unfold dropPartitions
    rw [hunageable c' h, hfloor c' h]
  cases hfiles : assertNoUnageableFiles args.tableId c with
  | error e => exact .inl ⟨.plan e, fun world c' h => by rw [hrun world c' h, hfiles]; rfl⟩
  | ok _ =>
      cases hcheck : args.checkIdentifiers with
      | error e => exact .inl ⟨e, fun world c' h => by rw [hrun world c' h, hfiles, hcheck]; rfl⟩
      | ok _ =>
          obtain ⟨hschema, htable⟩ := safe_of_checkIdentifiers hcheck
          cases hsnap : floorSnapshot args.cutoff c with
          | error e =>
              refine .inl ⟨e, fun world c' h => ?_⟩
              rw [hrun world c' h, hfiles, hcheck, hsnap]
              rfl
          | ok floorSnap =>
              refine .inr ⟨floorSnap, hschema, htable, rfl, fun world c' h => ?_⟩
              rw [hrun world c' h, hfiles, hcheck, hsnap]
              rfl

/-- In every turn the two runs both reach, the pre-check comes to the same verdict. -/
def VerdictsAgree (args : DropArgs) (work : List (String × TupleMap)) (world world' : ℕ → TurnWorld)
    (c c' : Catalog) : Prop :=
  ∀ floorSnap run run', floorSnapshot args.cutoff c = .ok floorSnap →
    dropPartitions args work world c = .ok run → dropPartitions args work world' c' = .ok run' →
    SameVerdicts args world world' floorSnap 0 run run'

/-- **Without the guard.** For every work list, two executing runs with `--no-viaduck-guard`, on
    catalogs and in worlds that differ in the cursor table alone: they attempt to drop the same leaves
    with the same files exactly when the pre-check, which still looks at the cursors, comes to the same
    verdict in every turn; and then they drop the same leaves and files. -/
theorem dropPartitions_unguarded {world world' : ℕ → TurnWorld} {c c' : Catalog}
    (h : SameRuns args world world' c c') (work : List (String × TupleMap)) :
    ((dropPartitions args work world c).map Run.attempts =
        (dropPartitions args work world' c').map Run.attempts ↔
      VerdictsAgree args work world world' c c') ∧
    (VerdictsAgree args work world world' c c' →
      (dropPartitions args work world c).map Run.drops =
        (dropPartitions args work world' c').map Run.drops) := by
  rcases dropPartitions_setup args work c with ⟨e, herror⟩ | hloop
  · rw [herror world c (.refl c), herror world' c' h.catalog]
    refine ⟨⟨fun _ floorSnap run run' _ hrun => ?_, fun _ => rfl⟩, fun _ => rfl⟩
    rw [herror world c (.refl c)] at hrun
    exact absurd hrun (by simp)
  · obtain ⟨floorSnap, hschema, htable, hfloor, hrun⟩ := hloop
    have hmatched := loop_matched floorSnap ⟨h.noViaduckGuard, hschema, htable⟩ h.execute h.world work
      0 true c c' h.catalog
    have hverdicts : VerdictsAgree args work world world' c c' ↔
        SameVerdicts args world world' floorSnap 0 (args.loop floorSnap world work 0 true c)
          (args.loop floorSnap world' work 0 true c') := by
      constructor
      · intro hagree
        exact hagree floorSnap _ _ hfloor (hrun world c (.refl c)) (hrun world' c' h.catalog)
      · intro hsame floorSnap' run run' hfloor' hrun' hrun''
        obtain rfl := Except.ok.inj (hfloor.symm.trans hfloor')
        obtain rfl := Except.ok.inj ((hrun world c (.refl c)).symm.trans hrun')
        obtain rfl := Except.ok.inj ((hrun world' c' h.catalog).symm.trans hrun'')
        exact hsame
    rw [hrun world c (.refl c), hrun world' c' h.catalog, hverdicts]
    constructor
    · rw [← hmatched.attempts_iff]
      exact ⟨Except.ok.inj, congrArg Except.ok⟩
    · exact fun hsame => congrArg Except.ok (hmatched.drops hsame)

/-! ## A cursor that still holds a leaf back -/

/-- The file of Berlin with the stats of its table, beside the cursor store. -/
def guardedCity (cursors : List (Option ℕ)) : Catalog :=
  { cityFile "Berlin" with tableStats := [⟨1, 10, 100⟩], cursors := cursors }

/-- A turn in which nobody else does anything and nothing fails. -/
def quietTurn (cursorTable : Bool) : TurnWorld where
  overBudget := false
  cursorTable := cursorTable
  beforeGuard := []
  guardFails := none
  beforeSelection := []
  selectionFails := none
  schedule := fun _ => []
  fates := fun _ => .runs
  server := ⟨"read committed", fun _ => 0, fun _ => false, fun _ => false, fun _ => true⟩

/-- `drop-partitions --manifest .. --execute --no-viaduck-guard`. -/
def unguardedArgs : DropArgs where
  tableId := 1
  schemaName := "main"
  tableName := "events"
  spec := ⟨5, cityKeys⟩
  cutoff := 1788220800000000
  manifest := true
  maxFiles := 10000
  execute := true
  noViaduckGuard := true
  stateSchema := "viaduck"
  stateTable := "viaduck_state"
  campaign := ""

/-- The leaf of Berlin's file. -/
def berlinLeaf : String × TupleMap :=
  ("city=Berlin,year=2026,month=8,day=1",
    (PartitionSpec.tupleMap ⟨5, cityKeys⟩ fun i => ["Berlin", "2026", "8", "1"].getD i ""))

def berlinDrops (cursorTable : Bool) (cursors : List (Option ℕ)) :
    Except RunError (List (String × List ℕ)) :=
  (dropPartitions unguardedArgs [berlinLeaf] (fun _ => quietTurn cursorTable)
    (guardedCity cursors)).map Run.drops

theorem quiet_sameRuns (cursorTable cursorTable' : Bool) (cursors cursors' : List (Option ℕ)) :
    SameRuns unguardedArgs (fun _ => quietTurn cursorTable) (fun _ => quietTurn cursorTable')
      (guardedCity cursors) (guardedCity cursors') :=
  ⟨rfl, rfl, fun _ => ⟨rfl, rfl, rfl, rfl, rfl, fun _ => rfl, rfl, rfl⟩, rfl⟩

/-- A cursor past the file, and no cursor table at all. -/
theorem berlin_unguarded : berlinDrops true [some 4] = berlinDrops false [] :=
  have h := dropPartitions_unguarded (quiet_sameRuns true false [some 4] []) [berlinLeaf]
  h.2 (h.1.1 (by decide +kernel))

/-- A cursor at the snapshot of the file: the run leaves the leaf alone, which it drops when there is
    no cursor table. -/
theorem berlin_held_back :
    SameRuns unguardedArgs (fun _ => quietTurn true) (fun _ => quietTurn false)
        (guardedCity [some 3]) (guardedCity []) ∧
      berlinDrops true [some 3] = .ok [] ∧
      berlinDrops false [] = .ok [("city=Berlin,year=2026,month=8,day=1", [7])] :=
  ⟨quiet_sameRuns true false [some 3] [], by decide +kernel, by decide +kernel⟩

end Millpond.Maintenance
