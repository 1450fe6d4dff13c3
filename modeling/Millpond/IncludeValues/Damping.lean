import Millpond.IncludeValues.Poller
import Mathlib.Order.Interval.Finset.Nat
import Mathlib.Tactic.IntervalCases

set_option autoImplicit false

/-! # Removal damping

A managed value leaves the served set only after `removal_confirm_polls` polls counted its absence,
and reappearing is meant to restart that countdown. This file states both over the full history of
fetched arrays and shows exactly when the poller keeps them: a poll the bulk-removal guard refuses
does not touch the counters, so a value it serves keeps the count it had. -/

namespace Millpond.IncludeValues

/-- A constructed `HttpIncludeValues`. -/
structure Source where
  settings : Settings
  bootstrap : Option Values
  start : State
  constructed : State.init? settings bootstrap = some start

variable (src : Source) (polls : List Poll)

/-- The state before poll number `k`. -/
def Source.before (k : ℕ) : State := stateBefore src.settings src.start polls k

/-- The array poll number `k` fetched, if it fetched one. -/
def served (k : ℕ) : Option Values := polls[k]?.bind servedArray

/-- Poll number `k` counted the absence of `v`. -/
def Source.counted (v : Scalar) (k : ℕ) : Bool :=
  match polls[k]?, served polls k with
  | some poll, some remote =>
      (pollOnce src.settings (src.before polls k) poll).2 = .accepted &&
        v ∈ absentees src.settings (src.before polls k) remote
  | _, _ => false

/-- Poll number `k` took `v` out of `current()`. -/
def Source.removes (v : Scalar) (k : ℕ) : Prop :=
  v ∈ (src.before polls k).currentSet ∧ v ∉ (src.before polls (k + 1)).currentSet

/-- Every removal is backed by `removal_confirm_polls` polls that counted the absence, with no
    fetched array showing the value from the first of them to the last. -/
def DampedRemovals : Prop :=
  ∀ k < polls.length, ∀ v, src.removes polls v k →
    ∃ i ≤ k, src.counted polls v i ∧ src.counted polls v k ∧
      ((Finset.Icc i k).filter (src.counted polls v ·)).card
        = src.settings.removalConfirmPolls ∧
      ∀ j ∈ Finset.Icc i k, ∀ remote, served polls j = some remote → v ∉ remote.toList

/-- A value present in a fetched array of the held type starts again from zero. -/
def RestartsCountdown : Prop :=
  ∀ k < polls.length, ∀ remote, served polls k = some remote →
    (src.before polls k).values.bind Values.type? = remote.type? →
      ∀ v ∈ remote.toList, absentCount (src.before polls (k + 1)).absentPolls v = 0

/-- A poll that trips the bulk-removal guard serves a value whose countdown is running. -/
def FrozenReappearance : Prop :=
  ∃ k < polls.length, ∃ remote, served polls k = some remote ∧
    bulkRemoval src.settings (src.before polls k) remote = true ∧
      ∃ v ∈ remote.toList, 0 < absentCount (src.before polls k).absentPolls v

variable {src polls}

/-! ## The countdown's invariants -/

theorem before_consistent (k : ℕ) : Consistent src.settings (src.before polls k) :=
  stateBefore_consistent (init?_consistent src.constructed) polls k

theorem before_succ {k : ℕ} (hk : k < polls.length) :
    src.before polls (k + 1) = (pollOnce src.settings (src.before polls k) polls[k]).1 :=
  stateBefore_succ src.settings src.start polls k hk

theorem served_of_lt {k : ℕ} (hk : k < polls.length) :
    served polls k = polls[k].bind normalize := by
  simp [served, servedArray, hk]

theorem counted_iff {k : ℕ} (hk : k < polls.length) {v : Scalar} {remote : Values}
    (hserved : served polls k = some remote) :
    src.counted polls v k = true ↔
      (pollOnce src.settings (src.before polls k) polls[k]).2 = .accepted ∧
        v ∈ absentees src.settings (src.before polls k) remote := by
  simp [Source.counted, hserved, List.getElem?_eq_getElem hk]

theorem counted_eq_false {k : ℕ} (hk : k < polls.length) {v : Scalar}
    (hres : (pollOnce src.settings (src.before polls k) polls[k]).2 ≠ .accepted) :
    src.counted polls v k = false := by
  cases hserved : served polls k with
  | none => simp [Source.counted, hserved]
  | some remote =>
      by_contra h
      exact hres ((counted_iff hk hserved).1 (by simpa using h)).1

theorem start_counts (v : Scalar) : absentCount src.start.absentPolls v = 0 := by
  have h := src.constructed
  simp only [State.init?] at h
  split at h
  · simp only [Option.some.injEq] at h
    rw [← h]
    rfl
  · exact absurd h (by simp)

/-- A committed countdown is always short of confirmation. -/
theorem absentCount_lt (v : Scalar) : ∀ k ≤ polls.length,
    absentCount (src.before polls k).absentPolls v < src.settings.removalConfirmPolls := by
  intro k
  induction k with
  | zero =>
      intro _
      have h0 : src.before polls 0 = src.start := by simp [Source.before, stateBefore]
      rw [h0, start_counts]
      exact src.settings.removalConfirmPolls_pos
  | succ k ih =>
      intro hk
      have hk' : k < polls.length := hk
      have ih := ih (Nat.le_of_lt hk')
      rw [before_succ hk']
      cases pollOnce_step (before_consistent k) polls[k] with
      | failed _ hres => rw [hres]; exact ih
      | typeFlip _ _ _ hres => rw [hres]; exact ih
      | empty _ _ _ hres => rw [hres]; exact ih
      | bulk _ _ _ _ _ hnext => rw [hnext.counts]; exact ih
      | accepted remote _ _ _ _ hnext =>
          rw [hnext.counts]
          split
          · next h =>
              by_contra hge
              exact h.2 (mem_confirmedRemovals.2 ⟨h.1, Nat.not_lt.1 hge⟩)
          · exact src.settings.removalConfirmPolls_pos

/-- `n` polls of `[i, k)` counted the absence of `v`, the first of them poll `i`, and no array
    fetched in `[i, k)` shows it. -/
structure AbsentSince (src : Source) (polls : List Poll) (v : Scalar) (n i k : ℕ) : Prop where
  lt : i < k
  first : src.counted polls v i = true
  card : ((Finset.Ico i k).filter (src.counted polls v ·)).card = n
  unserved : ∀ j ∈ Finset.Ico i k, ∀ remote, served polls j = some remote → v ∉ remote.toList

theorem AbsentSince.start {v : Scalar} {k : ℕ} (hcount : src.counted polls v k = true)
    (hun : ∀ remote, served polls k = some remote → v ∉ remote.toList) :
    AbsentSince src polls v 1 k (k + 1) where
  lt := Nat.lt_succ_self k
  first := hcount
  card := by simp [Finset.filter_singleton, hcount]
  unserved := by
    intro j hj remote hserved
    obtain rfl : j = k := by simpa using hj
    exact hun remote hserved

/-- One more poll that does not show `v` extends the window, and adds one if it counted. -/
theorem AbsentSince.extend {v : Scalar} {n i k : ℕ} (h : AbsentSince src polls v n i k)
    (hun : ∀ remote, served polls k = some remote → v ∉ remote.toList) :
    AbsentSince src polls v (if src.counted polls v k then n + 1 else n) i (k + 1) where
  lt := Nat.lt_succ_of_lt h.lt
  first := h.first
  card := by
    have hins : Finset.Ico i (k + 1) = insert k (Finset.Ico i k) := by
      ext j
      have := h.lt
      simp only [Finset.mem_Ico, Finset.mem_insert]
      omega
    rw [hins, Finset.filter_insert]
    split
    · rw [Finset.card_insert_of_notMem (by simp), h.card]
    · exact h.card
  unserved := by
    intro j hj remote hserved
    rcases Nat.lt_succ_iff_lt_or_eq.1 (Finset.mem_Ico.1 hj).2 with hlt | rfl
    · exact h.unserved j (Finset.mem_Ico.2 ⟨(Finset.mem_Ico.1 hj).1, hlt⟩) remote hserved
    · exact hun remote hserved

/-- **A running countdown is backed by the fetched arrays.** Unless a bulk-refused poll served a
    value being counted down, a count of `n` stands for `n` polls during which no array showed the
    value. -/
theorem absentSince_of_count (hfrozen : ¬ FrozenReappearance src polls) (v : Scalar) :
    ∀ k ≤ polls.length, 0 < absentCount (src.before polls k).absentPolls v →
      ∃ i, AbsentSince src polls v (absentCount (src.before polls k).absentPolls v) i k := by
  intro k
  induction k with
  | zero =>
      intro _ hpos
      have h0 : src.before polls 0 = src.start := by simp [Source.before, stateBefore]
      rw [h0, start_counts] at hpos
      exact absurd hpos (Nat.lt_irrefl 0)
  | succ k ih =>
      intro hk hpos
      have hk' : k < polls.length := hk
      have ih := ih (Nat.le_of_lt hk')
      have hcons : Consistent src.settings (src.before polls k) := before_consistent k
      rw [before_succ hk'] at hpos ⊢
      -- a poll that leaves the count alone leaves the window's count alone too
      have hkeep : ∀ s', s'.absentPolls = (src.before polls k).absentPolls →
          (pollOnce src.settings (src.before polls k) polls[k]).1 = s' →
          (pollOnce src.settings (src.before polls k) polls[k]).2 ≠ .accepted →
          (0 < absentCount (src.before polls k).absentPolls v →
            ∀ remote, served polls k = some remote → v ∉ remote.toList) →
          ∃ i, AbsentSince src polls v
            (absentCount (pollOnce src.settings (src.before polls k) polls[k]).1.absentPolls v)
            i (k + 1) := by
        intro s' hs' hpoll hres hun
        rw [hpoll, hs'] at hpos ⊢
        obtain ⟨i, hi⟩ := ih hpos
        refine ⟨i, ?_⟩
        have := hi.extend (hun hpos)
        simpa [counted_eq_false hk' hres] using this
      cases pollOnce_step hcons polls[k] with
      | failed hserved hres =>
          refine hkeep _ rfl (by rw [hres]) (by rw [hres]; simp) (fun _ remote hr => ?_)
          rw [served_of_lt hk', hserved] at hr
          exact absurd hr (by simp)
      | typeFlip remote hserved hflip hres =>
          refine hkeep _ rfl (by rw [hres]) (by rw [hres]; simp) (fun hrun remote' hr => ?_)
          rw [served_of_lt hk', hserved, Option.some.injEq] at hr
          exact hr ▸ not_mem_of_typeFlip hflip (hcons.countedCurrent v hrun)
      | empty remote hserved hempty hres =>
          refine hkeep _ rfl (by rw [hres]) (by rw [hres]; simp) (fun _ remote' hr => ?_)
          rw [served_of_lt hk', hserved, Option.some.injEq] at hr
          simp [← hr, hempty]
      | bulk remote hserved _ hbulk hres hnext =>
          refine hkeep _ hnext.counts rfl (by rw [hres]; simp) (fun hrun remote' hr => ?_)
          have hr' : remote = remote' := by
            rwa [served_of_lt hk', hserved, Option.some.injEq] at hr
          subst hr'
          exact fun hv => hfrozen ⟨k, hk', remote, hr, hbulk, v, hv, hrun⟩
      | accepted remote hserved _ _ hres hnext =>
          rw [hnext.counts] at hpos ⊢
          split at hpos
          · next habs =>
              have hsrv : served polls k = some remote := by rw [served_of_lt hk', hserved]
              have hcount : src.counted polls v k = true :=
                (counted_iff hk' hsrv).2 ⟨hres, habs.1⟩
              have hun : ∀ r, served polls k = some r → v ∉ r.toList := by
                intro r hr
                rw [hsrv, Option.some.injEq] at hr
                exact hr ▸ (mem_absentees.1 habs.1).2.1
              rw [if_pos habs]
              rcases Nat.eq_zero_or_pos (absentCount (src.before polls k).absentPolls v) with
                hzero | hrun
              · rw [hzero]
                exact ⟨k, AbsentSince.start hcount hun⟩
              · obtain ⟨i, hi⟩ := ih hrun
                exact ⟨i, by simpa [hcount] using hi.extend hun⟩
          · exact absurd hpos (Nat.lt_irrefl 0)

/-- Only an accepted poll removes a value, and only one it confirms. -/
theorem removes_confirmed {k : ℕ} (hk : k < polls.length) {v : Scalar}
    (hrem : src.removes polls v k) :
    ∃ remote, served polls k = some remote ∧ src.counted polls v k = true ∧
      v ∈ confirmedRemovals src.settings (src.before polls k) remote := by
  obtain ⟨hin, hout⟩ := hrem
  rw [before_succ hk] at hout
  cases pollOnce_step (before_consistent k) polls[k] with
  | failed _ hres => rw [hres] at hout; exact absurd hin hout
  | typeFlip _ _ _ hres => rw [hres] at hout; exact absurd hin hout
  | empty _ _ _ hres => rw [hres] at hout; exact absurd hin hout
  | bulk _ _ _ _ _ hnext => exact absurd ((hnext.current v).2 (Or.inl hin)) hout
  | accepted remote hserved _ _ hres hnext =>
      have hsrv : served polls k = some remote := by rw [served_of_lt hk, hserved]
      rw [hnext.current, mem_candidate] at hout
      have hconf : v ∈ confirmedRemovals src.settings (src.before polls k) remote := by
        by_contra hn
        exact hout ⟨Or.inl hin, hn⟩
      exact ⟨remote, hsrv, (counted_iff hk hsrv).2 ⟨hres, (mem_confirmedRemovals.1 hconf).1⟩, hconf⟩

theorem dampedRemovals_of_not_frozen (hfrozen : ¬ FrozenReappearance src polls) :
    DampedRemovals src polls := by
  intro k hk v hrem
  obtain ⟨remote, hserved, hcount, hconf⟩ := removes_confirmed hk hrem
  obtain ⟨habs, hge⟩ := mem_confirmedRemovals.1 hconf
  have hun : ∀ r, served polls k = some r → v ∉ r.toList := by
    intro r hr
    rw [hserved, Option.some.injEq] at hr
    exact hr ▸ (mem_absentees.1 habs).2.1
  have hN : absentCount (src.before polls k).absentPolls v + 1
      = src.settings.removalConfirmPolls :=
    Nat.le_antisymm (absentCount_lt v k (Nat.le_of_lt hk)) hge
  obtain ⟨i, hi⟩ : ∃ i, AbsentSince src polls v src.settings.removalConfirmPolls i (k + 1) := by
    rcases Nat.eq_zero_or_pos (absentCount (src.before polls k).absentPolls v) with hzero | hrun
    · rw [hzero] at hN
      exact ⟨k, hN ▸ AbsentSince.start hcount hun⟩
    · obtain ⟨i, hi⟩ := absentSince_of_count hfrozen v k (Nat.le_of_lt hk) hrun
      refine ⟨i, ?_⟩
      rw [← hN]
      simpa [hcount] using hi.extend hun
  have hIcc : Finset.Icc i k = Finset.Ico i (k + 1) := by
    ext j
    simp only [Finset.mem_Icc, Finset.mem_Ico]
    omega
  refine ⟨i, Nat.lt_succ_iff.1 hi.lt, hi.first, hcount, ?_, ?_⟩
  · rw [hIcc]
    exact hi.card
  · rw [hIcc]
    exact hi.unserved

theorem restartsCountdown_of_not_frozen (hfrozen : ¬ FrozenReappearance src polls) :
    RestartsCountdown src polls := by
  intro k hk remote hserved htype v hv
  have hsrv : polls[k].bind normalize = some remote := by rw [← served_of_lt hk, hserved]
  have hcons : Consistent src.settings (src.before polls k) := before_consistent k
  rw [before_succ hk]
  cases pollOnce_step hcons polls[k] with
  | failed hserved' _ => rw [hsrv] at hserved'; exact absurd hserved' (by simp)
  | typeFlip remote' hserved' hflip _ =>
      rw [hsrv, Option.some.injEq] at hserved'
      subst hserved'
      have hr : remote.type? = some v.type := Values.type?_of_mem hv
      simp [typeFlip, htype, hr] at hflip
  | empty remote' hserved' hempty _ =>
      rw [hsrv, Option.some.injEq] at hserved'
      subst hserved'
      simp [hempty] at hv
  | bulk remote' hserved' _ hbulk _ hnext =>
      rw [hsrv, Option.some.injEq] at hserved'
      subst hserved'
      rw [hnext.counts]
      by_contra hne
      exact hfrozen ⟨k, hk, remote, hserved, hbulk, v, hv, Nat.pos_of_ne_zero hne⟩
  | accepted remote' hserved' _ _ _ hnext =>
      rw [hsrv, Option.some.injEq] at hserved'
      subst hserved'
      rw [hnext.counts, if_neg]
      exact fun h => (mem_absentees.1 h.1).2.1 hv

/-- The bulk-removal refusal leaves a served value's countdown running. -/
theorem not_restartsCountdown_of_frozen (hfrozen : FrozenReappearance src polls) :
    ¬ RestartsCountdown src polls := by
  obtain ⟨k, hk, remote, hserved, hbulk, v, hv, hrun⟩ := hfrozen
  intro hrestart
  have hcons : Consistent src.settings (src.before polls k) := before_consistent k
  have hcur : v ∈ (src.before polls k).currentSet := hcons.countedCurrent v hrun
  have hsrv : polls[k].bind normalize = some remote := by rw [← served_of_lt hk, hserved]
  have htype : (src.before polls k).values.bind Values.type? = remote.type? := by
    cases hvals : (src.before polls k).values with
    | none => simp [State.currentSet, hvals] at hcur
    | some vs =>
        rw [Option.bind_some, Values.type?_of_mem ((mem_currentSet_some hvals v).1 hcur),
          Values.type?_of_mem hv]
  have hzero := hrestart k hk remote hserved htype v hv
  rw [before_succ hk] at hzero
  cases pollOnce_step hcons polls[k] with
  | failed hserved' _ => rw [hsrv] at hserved'; exact absurd hserved' (by simp)
  | typeFlip remote' hserved' hflip _ =>
      rw [hsrv, Option.some.injEq] at hserved'
      subst hserved'
      exact not_mem_of_typeFlip hflip hcur hv
  | empty remote' hserved' hempty _ =>
      rw [hsrv, Option.some.injEq] at hserved'
      subst hserved'
      simp [hempty] at hv
  | bulk remote' _ _ _ _ hnext =>
      rw [hnext.counts] at hzero
      exact absurd hzero hrun.ne'
  | accepted remote' hserved' _ hbulk' _ _ =>
      rw [hsrv, Option.some.injEq] at hserved'
      subst hserved'
      rw [hbulk] at hbulk'
      exact absurd hbulk' (by simp)

/-! ## When removals are damped -/

/-- **Removals are damped exactly when no bulk-refused poll serves a value being counted down.** -/
theorem damped_iff_not_frozen (src : Source) (polls : List Poll) :
    (DampedRemovals src polls ∧ RestartsCountdown src polls) ↔ ¬ FrozenReappearance src polls := by
  constructor
  · rintro ⟨_, hrestart⟩ hfrozen
    exact not_restartsCountdown_of_frozen hfrozen hrestart
  · intro hfrozen
    exact ⟨dampedRemovals_of_not_frozen hfrozen, restartsCountdown_of_not_frozen hfrozen⟩

/-- A pin, two confirming polls, and the pin as bootstrap. -/
def disputed : Source where
  settings := { pinned := .ofInts [0], removalConfirmPolls := 2, removalConfirmPolls_pos := by decide }
  bootstrap := some (.ofInts [0])
  start := { values := some (.ofInts [0]), absentPolls := [], synced := false }
  constructed := by decide

/-- The third array would remove three of five values, so it is refused; it serves 4. -/
def disputedPolls : List Poll :=
  [[1, 2, 3, 4, 5], [5], [4, 5], [1, 2, 3, 5]].map (fun ns => some (ns.map .int))

/-- The fourth poll removes 4, though the third one served it. -/
theorem disputed_not_damped :
    ¬ (DampedRemovals disputed disputedPolls ∧ RestartsCountdown disputed disputedPolls) := by
  rintro ⟨hdamped, _⟩
  have hrem : disputed.removes disputedPolls (.int 4) 3 := by
    unfold Source.removes
    decide
  obtain ⟨i, hi, -, -, hcard, hun⟩ := hdamped 3 (by decide) (.int 4) hrem
  have hlast : served disputedPolls 2 = some (.ofInts [4, 5]) := by decide
  have hi2 : 2 < i := by
    by_contra hle
    exact hun 2 (Finset.mem_Icc.2 ⟨Nat.not_lt.1 hle, by decide⟩) _ hlast (by decide)
  obtain rfl : i = 3 := by omega
  exact absurd hcard (by decide)

end Millpond.IncludeValues
