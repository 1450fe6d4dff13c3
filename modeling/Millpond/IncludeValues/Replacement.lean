import Millpond.IncludeValues.Damping
import Mathlib.Data.List.MinMax

set_option autoImplicit false

/-! # World replacement

An endpoint that serves one array disjoint from everything it served before asks for all managed
values to go. The bulk-removal guard refuses that as long as the values whose countdown ends first
are a majority of the managed slice. The slice counts what the endpoint adds, so an array that is
large enough, or countdowns that do not end together, get past it. -/

namespace Millpond.IncludeValues

variable {src : Source}

/-! ## The managed values and the first of them to be confirmed -/

/-- The held values that are not pinned. -/
def Source.unpinned (src : Source) (s : State) : List Scalar :=
  s.currentSet.filter (· ∉ src.settings.pinned.toList)

/-- The unpinned values that were absent longest: their countdowns end together, before all
    others. -/
def Source.leaders (src : Source) (s : State) : List Scalar :=
  (src.unpinned s).filter fun v =>
    ∀ w ∈ src.unpinned s, absentCount s.absentPolls w ≤ absentCount s.absentPolls v

@[simp] theorem mem_unpinned {s : State} {v : Scalar} :
    v ∈ src.unpinned s ↔ v ∈ s.currentSet ∧ v ∉ src.settings.pinned.toList := by
  simp [Source.unpinned]

theorem mem_leaders {s : State} {v : Scalar} :
    v ∈ src.leaders s ↔ v ∈ src.unpinned s ∧
      ∀ w ∈ src.unpinned s, absentCount s.absentPolls w ≤ absentCount s.absentPolls v := by
  simp only [Source.leaders, List.mem_filter, decide_eq_true_eq]

theorem unpinned_nodup (s : State) : (src.unpinned s).Nodup := (currentSet_nodup s).filter _

theorem exists_leader {s : State} (h : src.unpinned s ≠ []) : ∃ v, v ∈ src.leaders s := by
  cases hmax : List.argmax (absentCount s.absentPolls) (src.unpinned s) with
  | none => exact absurd (List.argmax_eq_none.1 hmax) h
  | some v =>
      exact ⟨v, mem_leaders.2 ⟨List.argmax_mem hmax, fun w hw => List.le_of_mem_argmax hw hmax⟩⟩

theorem sortedSet_nodup (vs : List Scalar) : (sortedSet vs).Nodup := by
  unfold sortedSet
  exact (List.perm_insertionSort _ _).nodup_iff.2 vs.nodup_dedup

theorem normalize_nodup {elements : List Element} {remote : Values}
    (h : normalize elements = some remote) : remote.toList.Nodup := by
  unfold normalize normalizeScalars at h
  split at h
  · exact absurd h (by simp)
  · split at h
    · obtain rfl : _ = remote := by simpa using h
      exact sortedSet_nodup _
    · obtain rfl : _ = remote := by simpa using h
      exact sortedSet_nodup _

/-- `remote` would replace the managed values of `s`: it has values, of the held type, and shares
    none with them. -/
structure Replaces (src : Source) (s : State) (remote : Values) : Prop where
  nonempty : remote.toList ≠ []
  nodup : remote.toList.Nodup
  sameType : ∀ v ∈ s.currentSet, ∀ w ∈ remote.toList, v.type = w.type
  disjoint : ∀ v ∈ src.unpinned s, v ∉ remote.toList
  two : 2 ≤ (src.unpinned s).length

/-- What holds while `remote` is served and nothing was removed since `s`: `t` polls counted. -/
structure Disputed (src : Source) (s : State) (remote : Values) (t : ℕ) (s' : State) : Prop where
  consistent : Consistent src.settings s'
  held : ∀ v ∈ src.unpinned s, v ∈ s'.currentSet
  only : ∀ v ∈ s'.currentSet, v ∈ src.unpinned s ∨ v ∈ src.settings.pinned.toList ∨ v ∈ remote.toList
  counts : ∀ v ∈ src.unpinned s, absentCount s'.absentPolls v = absentCount s.absentPolls v + t
  short : ∀ v ∈ src.unpinned s, absentCount s'.absentPolls v < src.settings.removalConfirmPolls

variable {s s' : State} {remote : Values} {t : ℕ}

theorem disputed_start (hs : Consistent src.settings s)
    (hshort : ∀ v, absentCount s.absentPolls v < src.settings.removalConfirmPolls) :
    Disputed src s remote 0 s := by
  refine ⟨hs, fun v hv => (mem_unpinned.1 hv).1, fun v hv => ?_, fun _ _ => rfl, fun v _ => hshort v⟩
  by_cases hp : v ∈ src.settings.pinned.toList
  · exact Or.inr (Or.inl hp)
  · exact Or.inl (mem_unpinned.2 ⟨hv, hp⟩)

/-! ## One poll of a dispute -/

theorem Disputed.absentees (h : Disputed src s remote t s') (hr : Replaces src s remote) (v : Scalar) :
    v ∈ absentees src.settings s' remote ↔ v ∈ src.unpinned s := by
  rw [mem_absentees]
  constructor
  · intro ⟨hheld, hserved, hpin⟩
    rcases h.only v hheld with hm | hp | hrem
    · exact hm
    · exact absurd hp hpin
    · exact absurd hrem hserved
  · intro hv
    exact ⟨h.held v hv, hr.disjoint v hv, (mem_unpinned.1 hv).2⟩

theorem Disputed.confirmed (h : Disputed src s remote t s') (hr : Replaces src s remote) (v : Scalar) :
    v ∈ confirmedRemovals src.settings s' remote ↔ v ∈ src.unpinned s ∧
      src.settings.removalConfirmPolls ≤ absentCount s.absentPolls v + t + 1 := by
  rw [mem_confirmedRemovals, h.absentees hr]
  constructor
  · intro ⟨hv, hle⟩
    rw [h.counts v hv] at hle
    exact ⟨hv, hle⟩
  · intro ⟨hv, hle⟩
    rw [h.counts v hv]
    exact ⟨hv, hle⟩

/-- The held values and the array are of one type. -/
theorem Disputed.typeFlip_eq_false (h : Disputed src s remote t s') (hs : Consistent src.settings s)
    (hr : Replaces src s remote) : typeFlip s' remote = false := by
  by_contra hflip
  have hflip : typeFlip s' remote = true := by simpa using hflip
  have htype : ∀ v ∈ s'.currentSet, ∀ w ∈ remote.toList, v.type = w.type := by
    intro v hv w hw
    rcases h.only v hv with hm | hp | hrem
    · exact hr.sameType v (mem_unpinned.1 hm).1 w hw
    · exact hr.sameType v (hs.pinsServed v hp) w hw
    · exact remote.homogeneous v hrem w hw
  cases hvalues : s'.values with
  | none => simp [typeFlip, hvalues] at hflip
  | some vs =>
      unfold typeFlip at hflip
      rw [hvalues, Option.bind_some] at hflip
      cases hvs : vs.type? with
      | none => simp [hvs] at hflip
      | some held =>
          cases hrem : remote.type? with
          | none => simp [hvs, hrem] at hflip
          | some served =>
              obtain ⟨v, hv, rfl⟩ := Option.map_eq_some_iff.1 hvs
              obtain ⟨w, hw, rfl⟩ := Option.map_eq_some_iff.1 hrem
              have heq := htype v ((mem_currentSet_some hvalues v).2 (List.mem_of_head? hv)) w
                (List.mem_of_head? hw)
              simp [hvs, hrem, heq] at hflip

/-- A poll that serves the array is accepted, or refused by the guard. -/
theorem Disputed.poll (h : Disputed src s remote t s') (hs : Consistent src.settings s)
    (hr : Replaces src s remote) {poll : Poll} (hserved : servedArray poll = some remote) :
    (bulkRemoval src.settings s' remote = true ∧
      RefusesBulk src.settings s' remote (pollOnce src.settings s' poll).1) ∨
    (bulkRemoval src.settings s' remote = false ∧
      Accepts src.settings s' remote (pollOnce src.settings s' poll).1) := by
  have hsame : ∀ {r : Values}, poll.bind normalize = some r → r = remote :=
    fun hr => Option.some.inj (hr.symm.trans hserved)
  cases pollOnce_step h.consistent poll with
  | failed hfail _ => exact absurd (hfail.symm.trans hserved) (by simp)
  | typeFlip r hr' hflip _ =>
      obtain rfl := hsame hr'
      exact absurd (hflip.symm.trans (h.typeFlip_eq_false hs hr)) (by simp)
  | empty r hr' hempty _ =>
      obtain rfl := hsame hr'
      exact absurd hempty hr.nonempty
  | bulk r hr' _ hbulk _ hnext =>
      obtain rfl := hsame hr'
      exact Or.inl ⟨hbulk, hnext⟩
  | accepted r hr' _ hbulk _ hnext =>
      obtain rfl := hsame hr'
      exact Or.inr ⟨hbulk, hnext⟩

/-- A refused poll leaves the dispute as it was, with the array added. -/
theorem Disputed.refused {s'' : State} (h : Disputed src s remote t s')
    (hc : Consistent src.settings s'') (hnext : RefusesBulk src.settings s' remote s'') :
    Disputed src s remote t s'' := by
  refine ⟨hc, fun v hv => (hnext.current v).2 (Or.inl (h.held v hv)), fun v hv => ?_, ?_, ?_⟩
  · rcases (hnext.current v).1 hv with hheld | hrem | hp
    · exact h.only v hheld
    · exact Or.inr (Or.inr hrem)
    · exact Or.inr (Or.inl hp)
  · rw [hnext.counts]
    exact h.counts
  · rw [hnext.counts]
    exact h.short

/-- An accepted poll that confirms nothing counts every value once more, and adds the array. -/
theorem Disputed.counted {s'' : State} (h : Disputed src s remote t s') (hr : Replaces src s remote)
    (hc : Consistent src.settings s'') (hnext : Accepts src.settings s' remote s'')
    (hnone : ∀ v ∈ src.unpinned s, absentCount s.absentPolls v + t + 1 < src.settings.removalConfirmPolls) :
    Disputed src s remote (t + 1) s'' ∧ ∀ v ∈ remote.toList, v ∈ s''.currentSet := by
  have hunconfirmed : ∀ v, v ∉ confirmedRemovals src.settings s' remote := by
    intro v hv
    obtain ⟨hm, hle⟩ := (h.confirmed hr v).1 hv
    have := hnone v hm
    omega
  have hcurrent : ∀ v, v ∈ s''.currentSet ↔
      v ∈ s'.currentSet ∨ v ∈ remote.toList ∨ v ∈ src.settings.pinned.toList := by
    intro v
    rw [hnext.current, mem_candidate]
    exact and_iff_left (hunconfirmed v)
  have hcount : ∀ v ∈ src.unpinned s,
      absentCount s''.absentPolls v = absentCount s.absentPolls v + (t + 1) := by
    intro v hv
    rw [hnext.counts, if_pos ⟨(h.absentees hr v).2 hv, hunconfirmed v⟩, h.counts v hv]
    omega
  refine ⟨⟨hc, fun v hv => (hcurrent v).2 (Or.inl (h.held v hv)), fun v hv => ?_, hcount, ?_⟩,
    fun v hv => (hcurrent v).2 (Or.inr (Or.inl hv))⟩
  · rcases (hcurrent v).1 hv with hheld | hrem | hp
    · exact h.only v hheld
    · exact Or.inr (Or.inr hrem)
    · exact Or.inr (Or.inl hp)
  · intro v hv
    rw [hcount v hv]
    exact hnone v hv

/-- When a countdown ends, it ends for the leaders and for no other value. -/
theorem Disputed.confirmed_length (h : Disputed src s remote t s') (hr : Replaces src s remote)
    {v : Scalar} (hv : v ∈ src.unpinned s)
    (hdue : src.settings.removalConfirmPolls ≤ absentCount s.absentPolls v + t + 1) :
    (∀ w, w ∈ confirmedRemovals src.settings s' remote ↔ w ∈ src.leaders s) ∧
      (confirmedRemovals src.settings s' remote).length = (src.leaders s).length := by
  have hmem : ∀ w, w ∈ confirmedRemovals src.settings s' remote ↔ w ∈ src.leaders s := by
    intro w
    rw [h.confirmed hr, mem_leaders]
    refine and_congr_right (fun hw => ⟨fun hle u hu => ?_, fun hmax => ?_⟩)
    · have := h.short u hu
      rw [h.counts u hu] at this
      omega
    · have := hmax v hv
      omega
  exact ⟨hmem, ((List.perm_ext_iff_of_nodup (confirmedRemovals_nodup ..) ((unpinned_nodup s).filter _)).2 hmem).length_eq⟩

/-- The managed slice lies between the values of the dispute and these with the array. -/
theorem Disputed.managed_length (h : Disputed src s remote t s') (hr : Replaces src s remote) :
    (src.unpinned s).length ≤ (managed src.settings s' remote).length ∧
      (managed src.settings s' remote).length ≤ (src.unpinned s).length + remote.toList.length ∧
      ((∀ v ∈ remote.toList, v ∈ s'.currentSet) →
        (managed src.settings s' remote).length = (src.unpinned s).length + remote.toList.length) := by
  have hnodup : (managed src.settings s' remote).Nodup := (currentSet_nodup s').filter _
  have hunion : (src.unpinned s ++ remote.toList).Nodup := by
    rw [List.nodup_append]
    exact ⟨unpinned_nodup s, hr.nodup, fun v hv w hw heq => hr.disjoint v hv (heq ▸ hw)⟩
  have hlower : src.unpinned s ⊆ managed src.settings s' remote := fun v hv =>
    mem_managed.2 ⟨h.held v hv, fun hp => absurd hp (mem_unpinned.1 hv).2⟩
  have hupper : managed src.settings s' remote ⊆ src.unpinned s ++ remote.toList := by
    intro v hv
    obtain ⟨hheld, hpin⟩ := mem_managed.1 hv
    rcases h.only v hheld with hm | hp | hrem
    · exact List.mem_append_left _ hm
    · exact List.mem_append_right _ (hpin hp)
    · exact List.mem_append_right _ hrem
  refine ⟨((unpinned_nodup s).subperm hlower).length_le, ?_, fun hall => ?_⟩
  · rw [← List.length_append]
    exact (hnodup.subperm hupper).length_le
  · rw [← List.length_append]
    refine ((List.perm_ext_iff_of_nodup hnodup hunion).2 fun v => ⟨fun hv => hupper hv, fun hv => ?_⟩).length_eq
    rcases List.mem_append.1 hv with hm | hrem
    · exact hlower hm
    · exact mem_managed.2 ⟨hall v hrem, fun _ => hrem⟩

/-! ## Whole disputes -/

/-- The leaders outnumber half of everything the endpoint could come to govern. -/
def LeadersPrevail (src : Source) (s : State) (remote : Values) : Prop :=
  (src.unpinned s).length + remote.toList.length < 2 * (src.leaders s).length

/-- While the leaders prevail, every poll leaves the dispute standing. -/
theorem Disputed.step (h : Disputed src s remote t s') (hs : Consistent src.settings s)
    (hr : Replaces src s remote) (hprevail : LeadersPrevail src s remote) {poll : Poll}
    (hpoll : servedArray poll = none ∨ servedArray poll = some remote) :
    ∃ t', Disputed src s remote t' (pollOnce src.settings s' poll).1 := by
  rcases hpoll with hfail | hserved
  · have hsame : pollOnce src.settings s' poll = (s', .failed) := by
      unfold pollOnce
      rw [show poll.bind normalize = none from hfail]
    exact ⟨t, by rw [hsame]; exact h⟩
  · have hc := pollOnce_consistent h.consistent poll
    rcases h.poll hs hr hserved with ⟨-, hnext⟩ | ⟨hbulk, hnext⟩
    · exact ⟨t, h.refused hc hnext⟩
    · by_cases hdue : ∃ v ∈ src.unpinned s,
          src.settings.removalConfirmPolls ≤ absentCount s.absentPolls v + t + 1
      · obtain ⟨v, hv, hdue⟩ := hdue
        obtain ⟨-, hlength⟩ := h.confirmed_length hr hv hdue
        obtain ⟨hlower, hupper, -⟩ := h.managed_length hr
        have htwo := hr.two
        have hpos : 0 < remote.toList.length := List.length_pos_of_ne_nil hr.nonempty
        unfold LeadersPrevail at hprevail
        have htrips : bulkRemoval src.settings s' remote = true := by
          rw [bulkRemoval_iff, hlength]
          omega
        exact absurd (hbulk.symm.trans htrips) (by simp)
      · refine ⟨t + 1, (h.counted hr hc hnext fun v hv => ?_).1⟩
        by_contra hge
        exact hdue ⟨v, hv, Nat.not_lt.1 hge⟩

theorem Disputed.run (hs : Consistent src.settings s) (hr : Replaces src s remote)
    (hprevail : LeadersPrevail src s remote) {polls : List Poll}
    (hpolls : ∀ p ∈ polls, servedArray p = none ∨ servedArray p = some remote)
    (h : Disputed src s remote t s') :
    ∃ t', Disputed src s remote t' (runPolls src.settings s' polls) := by
  induction polls generalizing t s' with
  | nil => exact ⟨t, h⟩
  | cons poll rest ih =>
      obtain ⟨t₁, h₁⟩ := h.step hs hr hprevail (hpolls poll (List.mem_cons_self ..))
      exact ih (fun p hp => hpolls p (List.mem_cons_of_mem _ hp)) h₁

/-- An accepted poll takes the confirmed values out. -/
theorem Disputed.removed {s'' : State} (h : Disputed src s remote t s') (hr : Replaces src s remote)
    (hnext : Accepts src.settings s' remote s'') {v : Scalar} (hv : v ∈ src.unpinned s)
    (hdue : src.settings.removalConfirmPolls ≤ absentCount s.absentPolls v + t + 1) :
    v ∉ s''.currentSet := by
  rw [hnext.current, mem_candidate]
  exact fun hmem => hmem.2 ((h.confirmed hr v).2 ⟨hv, hdue⟩)

/-- When the leaders do not prevail, polls that all serve the array take a leader out: the countdown
    runs `d` polls, and the guard holds the array up at most once more. -/
theorem Disputed.ends (hs : Consistent src.settings s) (hr : Replaces src s remote)
    (hprevail : ¬ LeadersPrevail src s remote) {poll : Poll} (hserved : servedArray poll = some remote)
    {leader : Scalar} (hleader : leader ∈ src.leaders s) (d : ℕ) :
    ∀ t s', Disputed src s remote t s' →
      absentCount s.absentPolls leader + t + 1 + d = src.settings.removalConfirmPolls →
      ∃ n, leader ∉ (runPolls src.settings s' (List.replicate n poll)).currentSet := by
  obtain ⟨hmanaged, hmax⟩ := mem_leaders.1 hleader
  induction d with
  | zero =>
      intro t s' h hcount
      have hdue : src.settings.removalConfirmPolls ≤ absentCount s.absentPolls leader + t + 1 := by omega
      rcases h.poll hs hr hserved with ⟨-, hnext⟩ | ⟨-, hnext⟩
      · -- held up once: now the slice has the whole array, and the leaders are no majority of it
        have h₁ := h.refused (pollOnce_consistent h.consistent poll) hnext
        rcases h₁.poll hs hr hserved with ⟨hbulk, -⟩ | ⟨-, hnext₁⟩
        · obtain ⟨-, hlength⟩ := h₁.confirmed_length hr hmanaged hdue
          obtain ⟨-, -, hall⟩ := h₁.managed_length hr
          have hslice := hall fun v hv => (hnext.current v).2 (Or.inr (Or.inl hv))
          rw [bulkRemoval_iff, hlength, hslice] at hbulk
          unfold LeadersPrevail at hprevail
          omega
        · exact ⟨2, h₁.removed hr hnext₁ hmanaged hdue⟩
      · exact ⟨1, h.removed hr hnext hmanaged hdue⟩
  | succ d ih =>
      intro t s' h hcount
      have hnone : ∀ v ∈ src.unpinned s,
          absentCount s.absentPolls v + t + 1 < src.settings.removalConfirmPolls := by
        intro v hv
        have := hmax v hv
        omega
      rcases h.poll hs hr hserved with ⟨hbulk, -⟩ | ⟨-, hnext⟩
      · have hempty : confirmedRemovals src.settings s' remote = [] := by
          refine List.eq_nil_iff_forall_not_mem.2 (fun v hv => ?_)
          obtain ⟨hm, hle⟩ := (h.confirmed hr v).1 hv
          have := hnone v hm
          omega
        rw [bulkRemoval_iff, hempty] at hbulk
        simp at hbulk
      · have h₁ := (h.counted hr (pollOnce_consistent h.consistent poll) hnext hnone).1
        obtain ⟨n, hn⟩ := ih (t + 1) _ h₁ (by omega)
        exact ⟨n + 1, hn⟩

/-- **When a world replacement never wins.** After any polls, let the endpoint serve from now on one
    array of the held type that shares nothing with the two or more managed values. It takes none of
    them out, however many polls follow and fail, if and only if the values absent longest number
    more than half of the managed values and the array together. -/
theorem replacement_never_wins_iff (src : Source) (prior : List Poll) (array : List Element)
    (remote : Values) (s : State) (hs : s = runPolls src.settings src.start prior)
    (harray : normalize array = some remote) (hnonempty : remote.toList ≠ [])
    (htype : ∀ v ∈ s.currentSet, ∀ w ∈ remote.toList, v.type = w.type)
    (hdisjoint : ∀ v ∈ src.unpinned s, v ∉ remote.toList) (htwo : 2 ≤ (src.unpinned s).length) :
    (∀ polls, (∀ p ∈ polls, servedArray p = none ∨ servedArray p = some remote) →
      ∀ v ∈ src.unpinned s, v ∈ (runPolls src.settings s polls).currentSet) ↔
    LeadersPrevail src s remote := by
  have hr : Replaces src s remote := ⟨hnonempty, normalize_nodup harray, htype, hdisjoint, htwo⟩
  have hbefore : s = src.before prior prior.length := by
    rw [hs]
    simp [Source.before, stateBefore]
  have hc : Consistent src.settings s := hbefore ▸ before_consistent _
  have hshort : ∀ v, absentCount s.absentPolls v < src.settings.removalConfirmPolls :=
    fun v => hbefore ▸ absentCount_lt v _ (Nat.le_refl _)
  have hstart : Disputed src s remote 0 s := disputed_start hc hshort
  constructor
  · intro hnever
    by_contra hprevail
    have hne : src.unpinned s ≠ [] := by
      intro hnil
      simp [hnil] at htwo
    obtain ⟨leader, hleader⟩ := exists_leader hne
    have hserved : servedArray (some array) = some remote := harray
    have hlt := hshort leader
    obtain ⟨n, hn⟩ := Disputed.ends hc hr hprevail hserved hleader
      (src.settings.removalConfirmPolls - (absentCount s.absentPolls leader + 1)) 0 s hstart (by omega)
    refine hn (hnever _ (fun p hp => ?_) leader (mem_leaders.1 hleader).1)
    rw [List.eq_of_mem_replicate hp]
    exact Or.inr hserved
  · intro hprevail polls hpolls v hv
    obtain ⟨t, h⟩ := Disputed.run hc hr hprevail hpolls hstart
    exact h.held v hv

/-- A pin as bootstrap and removals at the first absence. -/
def unpinnedWorld : Source where
  settings := { pinned := .ofInts [0], removalConfirmPolls := 1, removalConfirmPolls_pos := by decide }
  bootstrap := some (.ofInts [0])
  start := { values := some (.ofInts [0]), absentPolls := [], synced := false }
  constructed := by decide

/-- The held set after the endpoint served `ns`. -/
def holding (ns : List ℤ) : State :=
  runPolls unpinnedWorld.settings unpinnedWorld.start [some (ns.map .int)]

/-- One new value against four: no number of polls replaces them. -/
theorem four_outlast_one :
    LeadersPrevail unpinnedWorld (holding [1, 2, 3, 4]) (.ofInts [9]) ∧
    ∀ polls, (∀ p ∈ polls, servedArray p = none ∨ servedArray p = some (.ofInts [9])) →
      ∀ v ∈ unpinnedWorld.unpinned (holding [1, 2, 3, 4]),
        v ∈ (runPolls unpinnedWorld.settings (holding [1, 2, 3, 4]) polls).currentSet := by
  have hprevail : LeadersPrevail unpinnedWorld (holding [1, 2, 3, 4]) (.ofInts [9]) := by
    unfold LeadersPrevail
    decide
  have hiff := replacement_never_wins_iff unpinnedWorld [some ([1, 2, 3, 4].map .int)] [.int 9]
    (.ofInts [9]) (holding [1, 2, 3, 4]) rfl (by decide) (by decide) (by decide) (by decide)
    (by decide)
  exact ⟨hprevail, hiff.2 hprevail⟩

/-- Three new values against two: the first poll is refused but lets them in, and against the five
    values they make together the second poll's two removals are a minority. -/
theorem two_replaced_by_three :
    2 ≤ (unpinnedWorld.unpinned (holding [1, 2])).length ∧
    (∀ v ∈ unpinnedWorld.unpinned (holding [1, 2]), v ∉ (Values.ofInts [8, 9, 10]).toList) ∧
    ¬ (∀ polls, (∀ p ∈ polls, servedArray p = none ∨ servedArray p = some (.ofInts [8, 9, 10])) →
        ∀ v ∈ unpinnedWorld.unpinned (holding [1, 2]),
          v ∈ (runPolls unpinnedWorld.settings (holding [1, 2]) polls).currentSet) := by
  refine ⟨by decide, by decide, fun hnever => ?_⟩
  have hgone : Scalar.int 1 ∉ (runPolls unpinnedWorld.settings (holding [1, 2])
      (List.replicate 2 (some ([8, 9, 10].map .int)))).currentSet := by decide
  refine hgone (hnever _ (fun p hp => ?_) (.int 1) (by decide))
  rw [List.eq_of_mem_replicate hp]
  exact Or.inr (by decide)

end Millpond.IncludeValues
