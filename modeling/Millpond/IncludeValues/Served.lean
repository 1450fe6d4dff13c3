import Millpond.IncludeValues.Damping

set_option autoImplicit false

/-! # The served set

`build` turns the configuration into the source the filter reads: the static list, the polled set,
or in shadow mode the static list with a poller beside it. This file states what every poll keeps of
the set `current()` serves: the configured list is its floor, its type never changes, and no poll
takes more than half of what the endpoint governs. -/

namespace Millpond.IncludeValues

/-! ## Sources -/

/-- `include_values_mode`. -/
inductive Mode where
  | static
  | shadow
  | authoritative
deriving DecidableEq, Repr

/-- What `build` reads of the configuration. `config.load` refuses a confirm count below one. -/
structure IncludeConfig where
  filterValues : Option Values
  includeValuesUrl : Option String
  includeValuesMode : Mode
  includeValuesRemovalPolls : ℕ
  removalPolls_pos : 0 < includeValuesRemovalPolls

/-- `pinned or ()`. -/
def Values.orEmpty (values : Option Values) : Values :=
  values.getD ⟨[], by simp⟩

/-- What the poller is built with: the configured list is its pins. -/
def IncludeConfig.settings (cfg : IncludeConfig) : Settings where
  pinned := Values.orEmpty cfg.filterValues
  removalConfirmPolls := cfg.includeValuesRemovalPolls
  removalConfirmPolls_pos := cfg.removalPolls_pos

/-- The pins are the bootstrap, so construction never raises. -/
theorem init?_settings (cfg : IncludeConfig) : State.init? cfg.settings cfg.filterValues =
    some { values := cfg.filterValues, absentPolls := [], synced := false } := by
  unfold State.init?
  rw [if_pos]
  intro v hv
  cases hvalues : cfg.filterValues with
  | none => simp [IncludeConfig.settings, Values.orEmpty, hvalues] at hv
  | some vs => exact ⟨vs, rfl, by simpa [IncludeConfig.settings, Values.orEmpty, hvalues] using hv⟩

/-- The `HttpIncludeValues` that `build` constructs. -/
def IncludeConfig.http (cfg : IncludeConfig) : Source where
  settings := cfg.settings
  bootstrap := cfg.filterValues
  start := { values := cfg.filterValues, absentPolls := [], synced := false }
  constructed := init?_settings cfg

/-- `StaticIncludeValues | ShadowIncludeValues | HttpIncludeValues`. -/
inductive ValuesSource where
  | static (values : Option Values)
  | shadow (values : Option Values) (prober : Source)
  | http (source : Source)

def build (cfg : IncludeConfig) : ValuesSource :=
  match cfg.includeValuesUrl with
  | none => .static cfg.filterValues
  | some _ =>
      if cfg.includeValuesMode = .shadow then .shadow cfg.filterValues cfg.http
      else .http cfg.http

/-- The state of a poller after the given polls. -/
def Source.after (src : Source) (polls : List Poll) : State := runPolls src.settings src.start polls

/-- `current()` after the given polls: a shadow's prober is private. -/
def ValuesSource.current (polls : List Poll) : ValuesSource → Option Values
  | .static values => values
  | .shadow values _ => values
  | .http source => (source.after polls).values

/-- `current()` as a set. -/
def ValuesSource.currentSet (polls : List Poll) (src : ValuesSource) : List Scalar :=
  (Values.orEmpty (src.current polls)).toList.dedup

theorem http_currentSet (source : Source) (polls : List Poll) :
    (ValuesSource.http source).currentSet polls = (source.after polls).currentSet := by
  simp only [ValuesSource.currentSet, ValuesSource.current, State.currentSet]
  cases (source.after polls).values with
  | none => rfl
  | some vs => rfl

variable {src : Source} {polls : List Poll}

theorem after_consistent (src : Source) (polls : List Poll) :
    Consistent src.settings (src.after polls) :=
  runPolls_consistent (init?_consistent src.constructed) polls

theorem after_snoc (src : Source) (polls : List Poll) (poll : Poll) :
    src.after (polls ++ [poll]) = (pollOnce src.settings (src.after polls) poll).1 :=
  runPolls_snoc ..

/-! ## The countdown's keys -/

/-- A poll leaves the countdown dict alone or replaces it by its own tentative counts. -/
theorem pollOnce_absentPolls (cfg : Settings) (s : State) (poll : Poll) :
    (pollOnce cfg s poll).1.absentPolls = s.absentPolls ∨
      ∃ remote, (pollOnce cfg s poll).1.absentPolls =
        (tentativeCounts cfg s remote).filter (fun c => c.1 ∉ confirmedRemovals cfg s remote) := by
  unfold pollOnce
  cases poll.bind normalize with
  | none => exact Or.inl rfl
  | some remote =>
      simp only [pollValues]
      split_ifs <;> first | exact Or.inl rfl | exact Or.inr ⟨remote, rfl⟩

theorem tentativeCounts_unpinned {cfg : Settings} {s : State} {remote : Values} {c : Scalar × ℕ}
    (hc : c ∈ tentativeCounts cfg s remote) : c.1 ∉ cfg.pinned.toList := by
  obtain ⟨v, hv, rfl⟩ := List.mem_map.1 hc
  exact (mem_absentees.1 hv).2.2

/-- One poll counts no pin. -/
theorem pollOnce_unpinned {cfg : Settings} {s : State} (poll : Poll)
    (h : ∀ c ∈ s.absentPolls, c.1 ∉ cfg.pinned.toList) :
    ∀ c ∈ (pollOnce cfg s poll).1.absentPolls, c.1 ∉ cfg.pinned.toList := by
  intro c hc
  rcases pollOnce_absentPolls cfg s poll with hsame | ⟨remote, hnew⟩
  · rw [hsame] at hc
    exact h c hc
  · rw [hnew] at hc
    exact tentativeCounts_unpinned (List.mem_of_mem_filter hc)

theorem runPolls_unpinned {cfg : Settings} {s : State} (polls : List Poll)
    (h : ∀ c ∈ s.absentPolls, c.1 ∉ cfg.pinned.toList) :
    ∀ c ∈ (runPolls cfg s polls).absentPolls, c.1 ∉ cfg.pinned.toList := by
  induction polls generalizing s with
  | nil => exact h
  | cons poll rest ih => exact ih (pollOnce_unpinned poll h)

/-! ## What one poll does to the held set -/

/-- Served values are held after an accepted or bulk-refused poll. -/
theorem served_held {cfg : Settings} {s : State} (hc : Consistent cfg s) {poll : Poll}
    {remote : Values} (hserved : servedArray poll = some remote)
    (hres : (pollOnce cfg s poll).2 = .accepted ∨ (pollOnce cfg s poll).2 = .refused .bulkRemoval) :
    ∀ v ∈ remote.toList, v ∈ (pollOnce cfg s poll).1.currentSet := by
  have hsame : ∀ {r : Values}, poll.bind normalize = some r → r = remote :=
    fun hr => Option.some.inj (hr.symm.trans hserved)
  intro v hv
  cases pollOnce_step hc poll with
  | failed hfail _ => exact absurd (hfail.symm.trans hserved) (by simp)
  | typeFlip r _ _ h => simp [h] at hres
  | empty r _ _ h => simp [h] at hres
  | bulk r hr _ _ _ hnext =>
      obtain rfl := hsame hr
      exact (hnext.current v).2 (Or.inr (Or.inl hv))
  | accepted r hr _ _ _ hnext =>
      obtain rfl := hsame hr
      exact (hnext.current v).2 (mem_candidate_of_served hv)

/-- A poll that is not accepted removes nothing and touches no counter. -/
theorem unaccepted_keeps {cfg : Settings} {s : State} (hc : Consistent cfg s) {poll : Poll}
    (hres : (pollOnce cfg s poll).2 ≠ .accepted) :
    (∀ v ∈ s.currentSet, v ∈ (pollOnce cfg s poll).1.currentSet) ∧
      (pollOnce cfg s poll).1.absentPolls = s.absentPolls := by
  cases pollOnce_step hc poll with
  | failed _ h => rw [h]; exact ⟨fun _ hv => hv, rfl⟩
  | typeFlip _ _ _ h => rw [h]; exact ⟨fun _ hv => hv, rfl⟩
  | empty _ _ _ h => rw [h]; exact ⟨fun _ hv => hv, rfl⟩
  | bulk _ _ _ _ _ hnext => exact ⟨fun v hv => (hnext.current v).2 (Or.inl hv), hnext.counts⟩
  | accepted _ _ _ _ h _ => exact absurd h hres

/-- The held values a poll takes out. -/
def removedBy (before after : List Scalar) : List Scalar := before.filter (· ∉ after)

theorem removedBy_eq_nil {before after : List Scalar} (h : ∀ v ∈ before, v ∈ after) :
    removedBy before after = [] := by
  simpa [removedBy] using h

/-- Confirmed removals are part of the slice the endpoint governs. -/
theorem confirmedRemovals_length_le_managed (cfg : Settings) (s : State) (remote : Values) :
    (confirmedRemovals cfg s remote).length ≤ (managed cfg s remote).length := by
  refine ((confirmedRemovals_nodup cfg s remote).subperm fun v hv => ?_).length_le
  obtain ⟨hcur, -, hpin⟩ := mem_absentees.1 (mem_confirmedRemovals.1 hv).1
  exact mem_managed.2 ⟨hcur, fun h => absurd h hpin⟩

/-- Past the guard, the confirmed removals are at most half of the managed slice, or one. -/
theorem confirmedRemovals_length_le {cfg : Settings} {s : State} {remote : Values}
    (h : bulkRemoval cfg s remote = false) :
    (confirmedRemovals cfg s remote).length ≤ max 1 ((managed cfg s remote).length / 2) := by
  have hmanaged := confirmedRemovals_length_le_managed cfg s remote
  by_contra hlarge
  have htrips : bulkRemoval cfg s remote = true := bulkRemoval_iff.2 (by omega)
  exact absurd (h.symm.trans htrips) (by simp)

theorem removedBy_length_le {cfg : Settings} {s : State} (hc : Consistent cfg s) {poll : Poll}
    {remote : Values} (hserved : servedArray poll = some remote) :
    (removedBy s.currentSet (pollOnce cfg s poll).1.currentSet).length ≤
      max 1 ((managed cfg s remote).length / 2) := by
  by_cases hres : (pollOnce cfg s poll).2 = .accepted
  · cases pollOnce_step hc poll with
    | failed hfail _ => exact absurd (hfail.symm.trans hserved) (by simp)
    | typeFlip _ _ _ h => simp [h] at hres
    | empty _ _ _ h => simp [h] at hres
    | bulk _ _ _ _ h _ => simp [h] at hres
    | accepted r hr _ hbulk _ hnext =>
        obtain rfl : r = remote := Option.some.inj (hr.symm.trans hserved)
        have hconfirmed : removedBy s.currentSet (pollOnce cfg s poll).1.currentSet ⊆
            confirmedRemovals cfg s r := by
          intro v hv
          simp only [removedBy, List.mem_filter, decide_eq_true_eq] at hv
          by_contra hkept
          exact hv.2 ((hnext.current v).2 (mem_candidate.2 ⟨Or.inl hv.1, hkept⟩))
        have hnodup : (removedBy s.currentSet (pollOnce cfg s poll).1.currentSet).Nodup :=
          (currentSet_nodup s).filter _
        exact (hnodup.subperm hconfirmed).length_le.trans (confirmedRemovals_length_le hbulk)
  · rw [removedBy_eq_nil (unaccepted_keeps hc hres).1]
    exact Nat.zero_le _

/-! ## The set invariant -/

/-- What holds of `current()` when `poll` is over, the polls `polls` before it. -/
structure SetInvariant (cfg : IncludeConfig) (configured : Values) (polls : List Poll)
    (poll : Poll) : Prop where
  pinned : ∀ v ∈ configured.toList, v ∈ (build cfg).currentSet (polls ++ [poll])
  nonempty : (build cfg).currentSet (polls ++ [poll]) ≠ []
  typed : ∀ v ∈ (build cfg).currentSet (polls ++ [poll]), ∀ w ∈ configured.toList, v.type = w.type
  served : cfg.includeValuesMode ≠ .shadow → ∀ remote, servedArray poll = some remote →
    ((pollOnce cfg.settings (cfg.http.after polls) poll).2 = .accepted ∨
      (pollOnce cfg.settings (cfg.http.after polls) poll).2 = .refused .bulkRemoval) →
    ∀ v ∈ remote.toList, v ∈ (build cfg).currentSet (polls ++ [poll])
  kept : (pollOnce cfg.settings (cfg.http.after polls) poll).2 ≠ .accepted →
    (∀ v ∈ (build cfg).currentSet polls, v ∈ (build cfg).currentSet (polls ++ [poll])) ∧
      (cfg.http.after (polls ++ [poll])).absentPolls = (cfg.http.after polls).absentPolls
  uncounted : ∀ v ∈ configured.toList,
    v ∉ (cfg.http.after (polls ++ [poll])).absentPolls.map Prod.fst
  removed : ∀ remote, servedArray poll = some remote →
    (removedBy ((build cfg).currentSet polls) ((build cfg).currentSet (polls ++ [poll]))).length ≤
      max 1 ((managed cfg.settings (cfg.http.after polls) remote).length / 2)
  shadow : cfg.includeValuesMode = .shadow →
    (build cfg).current (polls ++ [poll]) = some configured

theorem pinned_eq {cfg : IncludeConfig} {configured : Values}
    (hvalues : cfg.filterValues = some configured) : cfg.settings.pinned = configured := by
  simp [IncludeConfig.settings, Values.orEmpty, hvalues]

/-- No pin is counted, in either mode. -/
theorem http_uncounted {cfg : IncludeConfig} {configured : Values}
    (hvalues : cfg.filterValues = some configured) (polls : List Poll) {v : Scalar}
    (hv : v ∈ configured.toList) : v ∉ (cfg.http.after polls).absentPolls.map Prod.fst := by
  intro hmem
  obtain ⟨c, hc, rfl⟩ := List.mem_map.1 hmem
  have hstart : ∀ c ∈ cfg.http.start.absentPolls, c.1 ∉ cfg.settings.pinned.toList := by
    simp [IncludeConfig.http]
  have hpins := runPolls_unpinned polls hstart
  exact hpins c hc (by rw [pinned_eq hvalues]; exact hv)

/-- **The set invariant.** Every poll of a source built with a URL and a non-empty configured list
    keeps the list, the type and more than half of the governed slice; a poll that is not accepted
    takes nothing out. What the endpoint serves reaches `current()` unless the mode is shadow,
    where `current()` stays the configured list. -/
theorem build_setInvariant (cfg : IncludeConfig) (url : String) (configured : Values)
    (hurl : cfg.includeValuesUrl = some url) (hvalues : cfg.filterValues = some configured)
    (hnonempty : configured.toList ≠ []) (polls : List Poll) (poll : Poll) :
    SetInvariant cfg configured polls poll := by
  have hc : Consistent cfg.settings (cfg.http.after polls) := after_consistent cfg.http polls
  have hnext : cfg.http.after (polls ++ [poll]) =
      (pollOnce cfg.settings (cfg.http.after polls) poll).1 := after_snoc cfg.http polls poll
  have hmode : build cfg = if cfg.includeValuesMode = .shadow then .shadow cfg.filterValues cfg.http
      else .http cfg.http := by
    unfold build
    rw [hurl]
  obtain ⟨w, hw⟩ := List.exists_mem_of_ne_nil _ hnonempty
  by_cases hshadow : cfg.includeValuesMode = .shadow
  · -- the static list, whatever the prober polls
    have hcurrent : ∀ ps, (build cfg).currentSet ps = configured.toList.dedup := by
      intro ps
      rw [hmode, if_pos hshadow]
      simp [ValuesSource.currentSet, ValuesSource.current, Values.orEmpty, hvalues]
    refine ⟨fun v hv => ?_, ?_, fun v hv u hu => ?_, fun h => absurd hshadow h, fun hres => ?_,
      fun v hv => http_uncounted hvalues _ hv, fun remote _ => ?_, fun _ => ?_⟩
    · simpa [hcurrent] using hv
    · intro hnil
      rw [hcurrent] at hnil
      exact absurd (List.mem_dedup.2 hw) (by simp [hnil])
    · rw [hcurrent, List.mem_dedup] at hv
      exact configured.homogeneous v hv u hu
    · refine ⟨fun v hv => by simpa [hcurrent] using hv, ?_⟩
      rw [hnext]
      exact (unaccepted_keeps hc hres).2
    · rw [removedBy_eq_nil (by simp [hcurrent])]
      exact Nat.zero_le _
    · rw [hmode, if_pos hshadow]
      exact hvalues
  · -- the polled set
    have hcurrent : ∀ ps, (build cfg).currentSet ps = (cfg.http.after ps).currentSet := by
      intro ps
      rw [hmode, if_neg hshadow]
      exact http_currentSet cfg.http ps
    have hpins : ∀ v ∈ configured.toList, v ∈ (cfg.http.after (polls ++ [poll])).currentSet := by
      intro v hv
      refine (after_consistent cfg.http (polls ++ [poll])).pinsServed v ?_
      rw [show cfg.http.settings.pinned = configured from pinned_eq hvalues]
      exact hv
    refine ⟨fun v hv => ?_, ?_, fun v hv u hu => ?_, fun _ remote hserved hres v hv => ?_,
      fun hres => ?_, fun v hv => http_uncounted hvalues _ hv, fun remote hserved => ?_,
      fun h => absurd h hshadow⟩
    · rw [hcurrent]
      exact hpins v hv
    · intro hnil
      rw [hcurrent] at hnil
      exact absurd (hpins w hw) (by simp [hnil])
    · rw [hcurrent] at hv
      exact currentSet_homogeneous _ v hv u (hpins u hu)
    · rw [hcurrent, hnext]
      exact served_held hc hserved hres v hv
    · simp only [hcurrent, hnext]
      exact unaccepted_keeps hc hres
    · simp only [hcurrent, hnext]
      exact removedBy_length_le hc hserved

/-- Two teams configured and a URL, in the given mode. -/
def twoTeams (mode : Mode) : IncludeConfig where
  filterValues := some (.ofInts [1, 2])
  includeValuesUrl := some "http://teams"
  includeValuesMode := mode
  includeValuesRemovalPolls := 2
  removalPolls_pos := Nat.two_pos

theorem twoTeams_setInvariant :
    SetInvariant (twoTeams .authoritative) (.ofInts [1, 2]) [some [.int 3]] (some [.int 4]) :=
  build_setInvariant (twoTeams .authoritative) "http://teams" (.ofInts [1, 2]) rfl rfl (by decide) _ _

/-- A shadow source accepts an array its `current()` never shows. -/
theorem shadow_hides_served :
    servedArray (some [Element.int 3]) = some (.ofInts [3]) ∧
    (pollOnce (twoTeams .shadow).settings ((twoTeams .shadow).http.after []) (some [.int 3])).2 =
      .accepted ∧
    Scalar.int 3 ∉ (build (twoTeams .shadow)).currentSet [some [.int 3]] := by
  decide

end Millpond.IncludeValues
