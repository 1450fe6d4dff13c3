import Mathlib.Algebra.Order.BigOperators.Group.List
import Mathlib.Tactic.Linarith
import Millpond.Maintenance.Compaction

set_option autoImplicit false

/-! # The budget of a compaction run

The run hands its grant to the CALL as a bound on output files and takes the input files off it
afterwards. So the budget holds exactly when no CALL merges more inputs than its grant had left. -/

namespace Millpond.Maintenance

variable {cfg : CompactSettings} {w : CompactWorld}

/-- The input files that the run accounts for. -/
def spent (calls : List MergeCall) : ℤ := (calls.map MergeCall.consumed).sum

@[simp] theorem spent_nil : spent [] = 0 := rfl

@[simp] theorem spent_cons (c : MergeCall) (calls : List MergeCall) :
    spent (c :: calls) = c.consumed + spent calls := by
  simp [spent]

@[simp] theorem spent_append (a b : List MergeCall) : spent (a ++ b) = spent a + spent b := by
  simp [spent]

theorem spent_nonneg {calls : List MergeCall} (h : ∀ c ∈ calls, 0 ≤ c.consumed) : 0 ≤ spent calls :=
  List.sum_nonneg fun x hx => by
    obtain ⟨c, hc, rfl⟩ := List.mem_map.1 hx
    exact h c hc

/-- The CALLs for the table at `index`. -/
def callsFor (index : ℕ) (calls : List MergeCall) : List MergeCall :=
  calls.filter fun c => c.index = index

/-- No CALL merged more inputs than its table's grant had left. -/
def WithinGrants (calls : List MergeCall) : Prop := ∀ c ∈ calls, c.consumed ≤ c.grant

/-- What a run promises: the budget for all tables, half of it for one, and with a budget of four that
    the second table gets its turn. -/
structure BudgetKept (maxCompactedFiles : ℕ) (run : (LoopEnd × ℕ) × CompactState) : Prop where
  total : spent run.2.calls ≤ maxCompactedFiles
  fair : ∀ index, spent (callsFor index run.2.calls) ≤ max 1 ((maxCompactedFiles / 2 : ℕ) : ℤ)
  served : 4 ≤ maxCompactedFiles → run.1 ≠ (.aborted, 0) → run.1 ≠ (.raised, 0) →
    callsFor 1 run.2.calls ≠ []

/-! ## One table -/

/-- What the CALLs for one table, `new`, make of the run. -/
structure TableCalls (index : ℕ) (grant : ℤ) (s s' : CompactState) (new : List MergeCall) : Prop where
  calls : s'.calls = s.calls ++ new
  remaining : s'.remaining = s.remaining - spent new
  index : ∀ c ∈ new, c.index = index
  nonneg : ∀ c ∈ new, 0 ≤ c.consumed
  within : 0 ≤ grant → (WithinGrants new ↔ spent new ≤ grant)
  called : 0 < grant → 0 < s.remaining → new ≠ []

theorem tableCalls_nil (index : ℕ) {grant : ℤ} {s : CompactState}
    (h : ¬ (0 < grant ∧ 0 < s.remaining)) : TableCalls index grant s s [] where
  calls := (List.append_nil _).symm
  remaining := (sub_zero _).symm
  index := nofun
  nonneg := nofun
  within hgrant := iff_of_true nofun hgrant
  called hgrant hremaining := absurd ⟨hgrant, hremaining⟩ h

/-- One CALL and nothing after it. -/
theorem tableCalls_single {index : ℕ} {grant cap consumed : ℤ} {s s' : CompactState}
    (hcalls : s'.calls = s.calls ++ [⟨index, grant, cap, consumed⟩])
    (hremaining : s'.remaining = s.remaining - consumed) (hnonneg : 0 ≤ consumed) :
    TableCalls index grant s s' [⟨index, grant, cap, consumed⟩] where
  calls := hcalls
  remaining := by simpa using hremaining
  index := by simp
  nonneg := by simpa using hnonneg
  within _ := by simp [WithinGrants]
  called _ _ := List.cons_ne_nil _ _

/-- One CALL before others: they get what it leaves of the grant. -/
theorem TableCalls.after {index : ℕ} {grant cap consumed : ℤ} {s s' s'' : CompactState}
    {new : List MergeCall} (h : TableCalls index (grant - consumed) s' s'' new)
    (hcalls : s'.calls = s.calls ++ [⟨index, grant, cap, consumed⟩])
    (hremaining : s'.remaining = s.remaining - consumed) (hnonneg : 0 ≤ consumed) :
    TableCalls index grant s s'' (⟨index, grant, cap, consumed⟩ :: new) where
  calls := by rw [h.calls, hcalls, List.append_assoc, List.singleton_append]
  remaining := by rw [h.remaining, hremaining, spent_cons, sub_sub]
  index := List.forall_mem_cons.2 ⟨rfl, h.index⟩
  nonneg := List.forall_mem_cons.2 ⟨hnonneg, h.nonneg⟩
  within hgrant := by
    have hsum := spent_nonneg h.nonneg
    unfold WithinGrants
    rw [List.forall_mem_cons, spent_cons]
    by_cases hfits : consumed ≤ grant
    · rw [← WithinGrants, h.within (sub_nonneg.2 hfits)]
      constructor
      · rintro ⟨-, hrest⟩
        exact le_sub_iff_add_le'.1 hrest
      · exact fun hsum => ⟨hfits, le_sub_iff_add_le'.2 hsum⟩
    · refine iff_of_false (fun hall => hfits hall.1) fun hle => hfits ?_
      exact le_of_add_le_of_nonneg_left hle hsum
  called _ _ := List.cons_ne_nil _ _

theorem afterFatal_frame (w : CompactWorld) (target : String) (n : ℕ) (s : CompactState) :
    (w.afterFatal target n s).2.calls = s.calls ∧
      (w.afterFatal target n s).2.remaining = s.remaining := by
  unfold CompactWorld.afterFatal
  split
  · exact ⟨rfl, rfl⟩
  · dsimp only
    split
    · exact ⟨rfl, rfl⟩
    · split
      · exact ⟨rfl, rfl⟩
      · split <;> exact ⟨rfl, rfl⟩

theorem mergeTable_calls (cfg : CompactSettings) (w : CompactWorld) (index : ℕ) (name : String)
    (grant : ℤ) (callIdx : ℕ) (s : CompactState) :
    ∃ new, TableCalls index grant s (mergeTable cfg w index name grant callIdx s).2 new := by
  fun_induction mergeTable cfg w index name grant callIdx s with
  | case1 grant callIdx s hloop n cap rows hjudge consumed s' hlegacy =>
      exact ⟨_, tableCalls_single rfl rfl (judge_merged hjudge).2.le⟩
  | case2 grant callIdx s hloop n cap rows hjudge consumed s' outputs hcapped ih =>
      obtain ⟨new, hnew⟩ := ih
      exact ⟨_, hnew.after rfl rfl (judge_merged hjudge).2.le⟩
  | case3 grant callIdx s hloop n cap hjudge s' =>
      refine ⟨[⟨index, grant, cap, 0⟩], tableCalls_single ?_ ?_ le_rfl⟩
      · split <;> rfl
      · split <;> exact (sub_zero _).symm
  | case4 grant callIdx s hloop n cap hjudge =>
      exact ⟨_, tableCalls_single rfl (sub_zero _).symm le_rfl⟩
  | case5 grant callIdx s hloop n cap hjudge =>
      obtain ⟨hcalls, hremaining⟩ := afterFatal_frame w cfg.target n
        ((s.called ⟨index, grant, cap, 0⟩).fail name)
      exact ⟨_, tableCalls_single hcalls (hremaining.trans (sub_zero _).symm) le_rfl⟩
  | case6 grant callIdx s hloop n cap hjudge =>
      exact ⟨_, tableCalls_single rfl (sub_zero _).symm le_rfl⟩
  | case7 grant callIdx s hloop n cap hjudge =>
      exact ⟨_, tableCalls_single rfl (sub_zero _).symm le_rfl⟩
  | case8 grant callIdx s hdone => exact ⟨[], tableCalls_nil index hdone⟩

/-! ## The tables -/

/-- What the CALLs for the tables from `index` on make of a run that has `s.remaining` left. -/
structure CatalogCalls (share : ℤ) (index : ℕ) (s s' : CompactState) (new : List MergeCall) :
    Prop where
  calls : s'.calls = s.calls ++ new
  index : ∀ c ∈ new, index ≤ c.index
  nonneg : ∀ c ∈ new, 0 ≤ c.consumed
  within : 0 ≤ s.remaining →
    (WithinGrants new ↔ spent new ≤ s.remaining ∧ ∀ i, spent (callsFor i new) ≤ share)

theorem callsFor_append (index : ℕ) (a b : List MergeCall) :
    callsFor index (a ++ b) = callsFor index a ++ callsFor index b := List.filter_append _ _

theorem callsFor_self {index : ℕ} {calls : List MergeCall} (h : ∀ c ∈ calls, c.index = index) :
    callsFor index calls = calls := List.filter_eq_self.2 fun c hc => by simpa using h c hc

theorem callsFor_of_ne {index i : ℕ} (hne : i ≠ index) {calls : List MergeCall}
    (h : ∀ c ∈ calls, c.index = index) : callsFor i calls = [] :=
  List.filter_eq_nil_iff.2 fun c hc => by simpa [h c hc] using hne.symm

theorem catalogCalls_nil {share : ℤ} (hshare : 0 ≤ share) (index : ℕ) (s : CompactState) :
    CatalogCalls share index s s [] where
  calls := (List.append_nil _).symm
  index := nofun
  nonneg := nofun
  within hremaining := iff_of_true nofun ⟨hremaining, fun _ => hshare⟩

/-- The table at `index`, and then the others. -/
theorem TableCalls.andThen {share : ℤ} {index : ℕ} {s s' s'' : CompactState}
    {first rest : List MergeCall} (hshare : 0 ≤ share)
    (hfirst : TableCalls index (min s.remaining share) s s' first)
    (hrest : CatalogCalls share (index + 1) s' s'' rest) :
    CatalogCalls share index s s'' (first ++ rest) where
  calls := by rw [hrest.calls, hfirst.calls, List.append_assoc]
  index c hc := by
    rcases List.mem_append.1 hc with hc | hc
    · exact (hfirst.index c hc).ge
    · exact Nat.le_of_succ_le (hrest.index c hc)
  nonneg c hc := (List.mem_append.1 hc).elim (hfirst.nonneg c) (hrest.nonneg c)
  within hremaining := by
    have hsum := spent_nonneg hrest.nonneg
    have hother : ∀ c ∈ rest, c.index ≠ index := fun c hc heq => by
      have hle := hrest.index c hc
      omega
    have hown : callsFor index rest = [] :=
      List.filter_eq_nil_iff.2 fun c hc => by simpa using hother c hc
    have hsplit : WithinGrants (first ++ rest) ↔ WithinGrants first ∧ WithinGrants rest :=
      List.forall_mem_append
    rw [hsplit, hfirst.within (le_min hremaining hshare), spent_append]
    constructor
    · rintro ⟨hgrant, hwithin⟩
      have hleft : 0 ≤ s'.remaining := by
        rw [hfirst.remaining]
        exact sub_nonneg.2 (hgrant.trans (min_le_left _ _))
      obtain ⟨htotal, hfair⟩ := (hrest.within hleft).1 hwithin
      rw [hfirst.remaining] at htotal
      refine ⟨le_sub_iff_add_le'.1 htotal, fun i => ?_⟩
      rw [callsFor_append]
      by_cases hi : i = index
      · rw [hi, callsFor_self hfirst.index, hown, List.append_nil]
        exact hgrant.trans (min_le_right _ _)
      · rw [callsFor_of_ne hi hfirst.index, List.nil_append]
        exact hfair i
    · rintro ⟨htotal, hfair⟩
      have hgrant : spent first ≤ min s.remaining share := by
        have hindex := hfair index
        rw [callsFor_append, callsFor_self hfirst.index, hown, List.append_nil] at hindex
        exact le_min (le_of_add_le_of_nonneg_left htotal hsum) hindex
      have hleft : 0 ≤ s'.remaining := by
        rw [hfirst.remaining]
        exact sub_nonneg.2 (hgrant.trans (min_le_left _ _))
      refine ⟨hgrant, (hrest.within hleft).2 ⟨?_, fun i => ?_⟩⟩
      · rw [hfirst.remaining]
        exact le_sub_iff_add_le'.2 htotal
      · by_cases hi : i = index
        · rw [hi, hown]
          exact hshare
        · have hindex := hfair i
          rwa [callsFor_append, callsFor_of_ne hi hfirst.index, List.nil_append] at hindex

/-- The share of one table among several. -/
def tableShare (cfg : CompactSettings) : ℤ := max 1 ((cfg.maxCompactedFiles / 2 : ℕ) : ℤ)

theorem tableShare_pos (cfg : CompactSettings) : 0 < tableShare cfg :=
  lt_of_lt_of_le one_pos (le_max_left _ _)

theorem tableGrant_eq (cfg : CompactSettings) {tableTotal : ℕ} (h : tableTotal ≠ 1) (remaining : ℤ) :
    tableGrant cfg tableTotal remaining = min remaining (tableShare cfg) := if_neg h

theorem mergeTables_calls (cfg : CompactSettings) (w : CompactWorld) {tableTotal : ℕ}
    (htotal : tableTotal ≠ 1) (tables : List (String × String)) (index : ℕ) (s : CompactState) :
    ∃ new, CatalogCalls (tableShare cfg) index s
      (mergeTables cfg w tableTotal index tables s).2 new := by
  have hshare := (tableShare_pos cfg).le
  induction tables generalizing index s with
  | nil => exact ⟨[], catalogCalls_nil hshare index s⟩
  | cons table rest ih =>
      unfold mergeTables
      split
      · exact ⟨[], catalogCalls_nil hshare index s⟩
      · obtain ⟨first, hfirst⟩ := mergeTable_calls cfg w index (table.1 ++ "." ++ table.2)
          (tableGrant cfg tableTotal s.remaining) 0 s
        rw [tableGrant_eq cfg htotal] at hfirst
        simp only [tableGrant_eq cfg htotal]
        -- a run that stops here makes no further CALL
        have hlast : ∀ s', s'.calls = (mergeTable cfg w index (table.1 ++ "." ++ table.2)
            (min s.remaining (tableShare cfg)) 0 s).2.calls →
            CatalogCalls (tableShare cfg) index s s' (first ++ []) := by
          intro s' hcalls
          have hall := hfirst.andThen hshare (catalogCalls_nil hshare (index + 1) _)
          exact ⟨hcalls.trans hall.calls, hall.index, hall.nonneg, hall.within⟩
        cases hend : mergeTable cfg w index (table.1 ++ "." ++ table.2)
            (min s.remaining (tableShare cfg)) 0 s with
        | mk loopEnd s' =>
            rw [hend] at hfirst hlast
            cases loopEnd with
            | done =>
                obtain ⟨new, hnew⟩ := ih (index + 1) s'
                exact ⟨_, hfirst.andThen hshare hnew⟩
            | aborted => exact ⟨_, hlast _ rfl⟩
            | raised => exact ⟨_, hlast _ rfl⟩

/-! ## The run -/

theorem mergeTables_done {tableTotal index : ℕ} {table : String × String}
    {rest : List (String × String)} {s s' : CompactState} (hremaining : 0 < s.remaining)
    (h : mergeTable cfg w index (table.1 ++ "." ++ table.2) (tableGrant cfg tableTotal s.remaining) 0 s =
      (.done, s')) :
    mergeTables cfg w tableTotal index (table :: rest) s =
      mergeTables cfg w tableTotal (index + 1) rest s' := by
  rw [mergeTables, if_neg (not_le.2 hremaining)]
  simp only [h]

/-- The CALLs for the first of the tables come first. -/
theorem calls_mergeTables_cons (cfg : CompactSettings) (w : CompactWorld) {tableTotal : ℕ}
    (htotal : tableTotal ≠ 1) (index : ℕ) (table : String × String) (rest : List (String × String))
    {s : CompactState} (hremaining : 0 < s.remaining) :
    ∃ more, (mergeTables cfg w tableTotal index (table :: rest) s).2.calls =
      (mergeTable cfg w index (table.1 ++ "." ++ table.2) (tableGrant cfg tableTotal s.remaining) 0
        s).2.calls ++ more := by
  unfold mergeTables
  rw [if_neg (not_le.2 hremaining)]
  dsimp only
  cases hend : mergeTable cfg w index (table.1 ++ "." ++ table.2)
      (tableGrant cfg tableTotal s.remaining) 0 s with
  | mk loopEnd s' =>
      cases loopEnd with
      | done =>
          obtain ⟨more, hmore⟩ := mergeTables_calls cfg w htotal rest (index + 1) s'
          exact ⟨more, hmore.calls⟩
      | aborted => exact ⟨[], (List.append_nil _).symm⟩
      | raised => exact ⟨[], (List.append_nil _).symm⟩

/-- Half a budget of four or more leaves something for the second table. -/
theorem second_called (h : 4 ≤ cfg.maxCompactedFiles) {first second : String × String}
    {rest : List (String × String)} {globalSize : Option String}
    (hwithin : WithinGrants (compactCatalog cfg w (first :: second :: rest) globalSize).2.calls)
    (haborted : (compactCatalog cfg w (first :: second :: rest) globalSize).1 ≠ (.aborted, 0))
    (hraised : (compactCatalog cfg w (first :: second :: rest) globalSize).1 ≠ (.raised, 0)) :
    callsFor 1 (compactCatalog cfg w (first :: second :: rest) globalSize).2.calls ≠ [] := by
  have htotal : (first :: second :: rest).length ≠ 1 := by simp
  have hstart : 0 < (CompactState.start cfg.maxCompactedFiles globalSize).remaining := by
    show (0 : ℤ) < cfg.maxCompactedFiles
    omega
  have hgrant := tableGrant_eq cfg htotal
    (CompactState.start cfg.maxCompactedFiles globalSize).remaining
  obtain ⟨new, hnew⟩ := mergeTable_calls cfg w 0 (first.1 ++ "." ++ first.2)
    (tableGrant cfg (first :: second :: rest).length
      (CompactState.start cfg.maxCompactedFiles globalSize).remaining) 0
    (.start cfg.maxCompactedFiles globalSize)
  obtain ⟨more, hmore⟩ := calls_mergeTables_cons cfg w htotal 0 first (second :: rest) hstart
  -- the first table got no more than its share
  have hspent : spent new ≤ tableShare cfg := by
    have hnonneg : 0 ≤ tableGrant cfg (first :: second :: rest).length
        (CompactState.start cfg.maxCompactedFiles globalSize).remaining := by
      rw [hgrant]
      exact le_min hstart.le (tableShare_pos cfg).le
    refine ((hnew.within hnonneg).1 fun c hc => hwithin c ?_).trans ?_
    · show c ∈ (mergeTables cfg w _ 0 (first :: second :: rest) _).2.calls
      rw [hmore, hnew.calls]
      exact List.mem_append_left _ (List.mem_append_right _ hc)
    · rw [hgrant]
      exact min_le_right _ _
  have hrun : compactCatalog cfg w (first :: second :: rest) globalSize =
      mergeTables cfg w (first :: second :: rest).length 0 (first :: second :: rest)
        (.start cfg.maxCompactedFiles globalSize) := rfl
  rw [hrun] at haborted hraised ⊢
  cases hend : mergeTable cfg w 0 (first.1 ++ "." ++ first.2)
      (tableGrant cfg (first :: second :: rest).length
        (CompactState.start cfg.maxCompactedFiles globalSize).remaining) 0
      (.start cfg.maxCompactedFiles globalSize) with
  | mk loopEnd s' =>
      cases loopEnd with
      | aborted =>
          refine absurd ?_ haborted
          rw [mergeTables, if_neg (not_le.2 hstart)]
          simp only [hend]
      | raised =>
          refine absurd ?_ hraised
          rw [mergeTables, if_neg (not_le.2 hstart)]
          simp only [hend]
      | done =>
          rw [hend] at hnew
          have hleft : 0 < s'.remaining := by
            have hremaining : s'.remaining = cfg.maxCompactedFiles - spent new := hnew.remaining
            have hhalf : tableShare cfg ≤ cfg.maxCompactedFiles - 2 := by
              unfold tableShare
              omega
            omega
          obtain ⟨new', hnew'⟩ := mergeTable_calls cfg w 1 (second.1 ++ "." ++ second.2)
            (tableGrant cfg (first :: second :: rest).length s'.remaining) 0 s'
          obtain ⟨more', hmore'⟩ := calls_mergeTables_cons cfg w htotal 1 second rest hleft
          have hcalled : new' ≠ [] := by
            refine hnew'.called ?_ hleft
            rw [tableGrant_eq cfg htotal]
            exact lt_min hleft (tableShare_pos cfg)
          obtain ⟨c, hc⟩ := List.exists_mem_of_ne_nil _ hcalled
          rw [mergeTables_done hstart hend, hmore', hnew'.calls]
          refine List.ne_nil_of_mem (List.mem_filter.2 ⟨?_, by simpa using hnew'.index c hc⟩)
          exact List.mem_append_left _ (List.mem_append_right _ hc)

/-- **When the budget holds.** In every catalog-wide run over two tables or more, whatever the CALLs
    return: the run keeps to its budget and to the half for each table, and serves the second table,
    if and only if no CALL merges more input files than was left of its grant. -/
theorem compactCatalog_budget (cfg : CompactSettings) (w : CompactWorld)
    (tables : List (String × String)) (htwo : 2 ≤ tables.length) (globalSize : Option String) :
    BudgetKept cfg.maxCompactedFiles (compactCatalog cfg w tables globalSize) ↔
      WithinGrants (compactCatalog cfg w tables globalSize).2.calls := by
  have htotal : tables.length ≠ 1 := by omega
  obtain ⟨new, hnew⟩ := mergeTables_calls cfg w htotal tables 0
    (.start cfg.maxCompactedFiles globalSize)
  have hcalls : (compactCatalog cfg w tables globalSize).2.calls = new := by
    show (mergeTables cfg w _ 0 tables _).2.calls = new
    rw [hnew.calls]
    exact List.nil_append _
  have hwithin := hnew.within (Int.natCast_nonneg _)
  constructor
  · intro hkept
    rw [hcalls, hwithin]
    refine ⟨?_, fun i => ?_⟩
    · rw [← hcalls]
      exact hkept.total
    · rw [← hcalls]
      exact hkept.fair i
  · intro hgrants
    have hgrants' := hgrants
    rw [hcalls, hwithin] at hgrants'
    refine ⟨?_, fun i => ?_, fun hfour haborted hraised => ?_⟩
    · rw [hcalls]
      exact hgrants'.1
    · rw [hcalls]
      exact hgrants'.2 i
    · match tables with
      | first :: second :: rest => exact second_called hfour hgrants haborted hraised

/-! ## Merges of many small files -/

/-- The contract of the CALL: a cap on its output files, and at least two inputs for each. -/
structure MergeContract (merge : ℕ → ℤ → CallEnd) : Prop where
  outputs : ∀ n cap found, 0 ≤ cap → merge n cap = .rows found → (found.length : ℤ) ≤ cap
  inputs : ∀ n cap found, merge n cap = .rows found → ∀ r ∈ found, r ≠ .short ∧ 2 ≤ r.inputs

/-- Ten small files for each output file, up to two of these. -/
def tenEach (_ : ℕ) (cap : ℤ) : CallEnd :=
  .rows (List.replicate (min cap.toNat 2) (.group "main" "events" 10 1))

theorem tenEach_contract : MergeContract tenEach where
  outputs n cap found hcap h := by
    obtain rfl := CallEnd.rows.inj h
    rw [List.length_replicate]
    omega
  inputs n cap found h r hr := by
    obtain rfl := CallEnd.rows.inj h
    rw [List.eq_of_mem_replicate hr]
    exact ⟨nofun, by decide⟩

/-- The only CALL for a table, without a cap of its own. -/
theorem mergeTable_uncapped {index : ℕ} {name : String} {grant : ℤ} {callIdx : ℕ} {s : CompactState}
    {rows : List MergeRow} (hcfg : cfg.maxOutputsPerCall = none)
    (hloop : 0 < grant ∧ 0 < s.remaining)
    (hjudge : (w.merge s.calls.length grant).judge = .merged rows) :
    mergeTable cfg w index name grant callIdx s =
      (.done, { s.called ⟨index, grant, grant, consumedBy rows⟩ with
        result := s.result ++ rows
        remaining := s.remaining - consumedBy rows }) := by
  have hcap : callCap cfg.maxOutputsPerCall grant = grant := by rw [hcfg]; rfl
  unfold mergeTable
  rw [if_pos hloop, hcap]
  dsimp only
  split
  all_goals
    rename_i hverdict
    rw [hjudge] at hverdict
  · obtain rfl := Verdict.merged.inj hverdict
    rw [hcfg]
  all_goals cases hverdict

/-- A world without errors. -/
def tenEachWorld : CompactWorld where
  countFails := false
  setupFails := false
  readFails := false
  setFails := false
  readSize := fun _ => some 134217728
  merge := tenEach
  alive := fun _ => true
  connectFails := fun _ => false
  reconnectSetFails := fun _ => false
  restoreFails := false

def budgetOfFour : CompactSettings := ⟨"128MiB", none, false, 4, none⟩

def twoTables : List (String × String) := [("main", "events"), ("main", "persons")]

theorem twoTables_budget :
    BudgetKept 4 (compactCatalog budgetOfFour tenEachWorld twoTables none) ↔
      WithinGrants (compactCatalog budgetOfFour tenEachWorld twoTables none).2.calls :=
  compactCatalog_budget budgetOfFour tenEachWorld twoTables (by decide) none

/-- The first table takes twenty files of a budget of four, and the second is not called. -/
theorem twoTables_overspent :
    MergeContract tenEachWorld.merge ∧
      (compactCatalog budgetOfFour tenEachWorld twoTables none).1 = (.done, 1) ∧
      ¬ BudgetKept 4 (compactCatalog budgetOfFour tenEachWorld twoTables none) := by
  -- what the CALL for the first table leaves
  let rows : List MergeRow := List.replicate 2 (.group "main" "events" 10 1)
  let s' : CompactState := ⟨[⟨0, 2, 2, 20⟩], -16, rows, [], 0, 0, false, none⟩
  have hjudge : (tenEachWorld.merge 0 2).judge = .merged rows := rfl
  have hloop : (0 : ℤ) < 2 ∧ 0 < (CompactState.start 4 none).remaining := by decide
  have hfirst : mergeTable budgetOfFour tenEachWorld 0 ("main" ++ "." ++ "events")
      (tableGrant budgetOfFour 2 4) 0 (.start 4 none) = (.done, s') :=
    mergeTable_uncapped rfl hloop hjudge
  have hstep : mergeTables budgetOfFour tenEachWorld 2 0 twoTables (.start 4 none) =
      mergeTables budgetOfFour tenEachWorld 2 1 [("main", "persons")] s' :=
    mergeTables_done hloop.2 hfirst
  have hrun : compactCatalog budgetOfFour tenEachWorld twoTables none = ((.done, 1), s') := hstep
  rw [hrun]
  exact ⟨tenEach_contract, rfl, fun hkept => absurd hkept.total (by decide)⟩

end Millpond.Maintenance
