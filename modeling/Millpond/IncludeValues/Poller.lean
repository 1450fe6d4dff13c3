import Mathlib.Data.List.Sort
import Mathlib.Data.List.Dedup

set_option autoImplicit false

/-! # The polled include-value set

`HttpIncludeValues` keeps the keep-filter's include set current by polling an endpoint. This file
is its poll: normalization of the fetched array, the three refusals (`type_flip`, `empty`,
`bulk_removal`), the damped removals with their absence counters, and the run of a list of polls.
Metrics, logging and the thread around `_poll_once` are left out; what a poll decides depends on
none of them. -/

namespace Millpond.IncludeValues

/-! ## Values -/

/-- A value of an include set: the tuples `_normalize` builds are all-int or all-str. -/
inductive Scalar where
  | int (n : ℤ)
  | str (s : String)
deriving DecidableEq, Repr

/-- The scalar types `_values_type` tells apart. -/
inductive ScalarType where
  | int
  | str
deriving DecidableEq, Repr

def Scalar.type : Scalar → ScalarType
  | .int _ => .int
  | .str _ => .str

/-- The order `sorted` puts on one homogeneous tuple (ints never meet strings there). -/
def Scalar.le : Scalar → Scalar → Prop
  | .int a, .int b => a ≤ b
  | .str a, .str b => a ≤ b
  | .int _, .str _ => True
  | .str _, .int _ => False

instance : DecidableRel Scalar.le := fun a b =>
  match a, b with
  | .int m, .int n => inferInstanceAs (Decidable (m ≤ n))
  | .str s, .str t => inferInstanceAs (Decidable (s ≤ t))
  | .int _, .str _ => inferInstanceAs (Decidable True)
  | .str _, .int _ => inferInstanceAs (Decidable False)

/-- One element of the JSON array `json.loads` returns. A float carries the text `str` gives it;
    `nested` is an object or an array. -/
inductive Element where
  | int (n : ℤ)
  | str (s : String)
  | bool (b : Bool)
  | null
  | float (repr : String)
  | nested
deriving DecidableEq, Repr

/-- Python's `str(e)` on a scalar element. -/
def Element.pyStr : Element → String
  | .int n => toString n
  | .str s => s
  | .bool true => "True"
  | .bool false => "False"
  | .null => "None"
  | .float r => r
  | .nested => ""

/-- `isinstance(e, int) and not isinstance(e, bool)`. -/
def Element.int? : Element → Option ℤ
  | .int n => some n
  | _ => none

/-- A value back as the array element it came from. -/
def Scalar.toElement : Scalar → Element
  | .int n => .int n
  | .str s => .str s

/-- `tuple[int, ...] | tuple[str, ...]`: a tuple whose elements have one type. -/
structure Values where
  toList : List Scalar
  homogeneous : ∀ v ∈ toList, ∀ w ∈ toList, v.type = w.type
deriving DecidableEq

/-- `tuple(sorted(set(..)))`. -/
def sortedSet (vs : List Scalar) : List Scalar :=
  vs.dedup.insertionSort Scalar.le

@[simp] theorem mem_sortedSet {v : Scalar} {vs : List Scalar} : v ∈ sortedSet vs ↔ v ∈ vs := by
  simp [sortedSet]

def Values.ofInts (ns : List ℤ) : Values where
  toList := sortedSet (ns.map .int)
  homogeneous := by
    intro v hv w hw
    simp only [mem_sortedSet, List.mem_map] at hv hw
    obtain ⟨_, _, rfl⟩ := hv
    obtain ⟨_, _, rfl⟩ := hw
    rfl

def Values.ofStrs (texts : List String) : Values where
  toList := sortedSet (texts.map .str)
  homogeneous := by
    intro v hv w hw
    simp only [mem_sortedSet, List.mem_map] at hv hw
    obtain ⟨_, _, rfl⟩ := hv
    obtain ⟨_, _, rfl⟩ := hw
    rfl

/-- `_normalize` on scalars: an all-int list becomes ints, anything else strings. -/
def normalizeScalars (elements : List Element) : Values :=
  if elements.all (fun e => e.int?.isSome) then .ofInts (elements.filterMap Element.int?)
  else .ofStrs (elements.map Element.pyStr)

/-- `_normalize` on a fetched array; `none` is the `ValueError` for a non-scalar element. -/
def normalize (elements : List Element) : Option Values :=
  if elements.any (· = .nested) then none else some (normalizeScalars elements)

/-- `_normalize(list(..))` on a set of values. -/
def normalizeSet (vs : List Scalar) : Values := normalizeScalars (vs.map Scalar.toElement)

/-- Normalizing a set of one type keeps its elements. -/
theorem mem_normalizeSet {vs : List Scalar}
    (hom : ∀ v ∈ vs, ∀ w ∈ vs, v.type = w.type) (v : Scalar) :
    v ∈ (normalizeSet vs).toList ↔ v ∈ vs := by
  unfold normalizeSet normalizeScalars
  split
  · next hint =>
      simp only [List.all_map, List.all_eq_true, Function.comp_apply] at hint
      simp only [Values.ofInts, mem_sortedSet, List.mem_map, List.mem_filterMap]
      constructor
      · rintro ⟨n, ⟨e, ⟨w, hw, rfl⟩, he⟩, rfl⟩
        cases w with
        | int m =>
            simp only [Scalar.toElement, Element.int?, Option.some.injEq] at he
            exact he ▸ hw
        | str t => simp [Scalar.toElement, Element.int?] at he
      · intro hv
        cases v with
        | int n => exact ⟨n, ⟨.int n, ⟨.int n, hv, rfl⟩, rfl⟩, rfl⟩
        | str t => simpa [Scalar.toElement, Element.int?] using hint _ hv
  · next hint =>
      -- some element is a string, so all are and `str` leaves them alone
      have hstr : ∀ w ∈ vs, w.type = .str := by
        intro w hw
        by_contra hne
        refine hint ?_
        simp only [List.all_map, List.all_eq_true, Function.comp_apply]
        intro u hu
        cases u with
        | int n => rfl
        | str t =>
            have := hom w hw _ hu
            exact absurd this (by simpa [Scalar.type] using hne)
      simp only [Values.ofStrs, mem_sortedSet, List.mem_map]
      constructor
      · rintro ⟨t, ⟨e, ⟨w, hw, rfl⟩, rfl⟩, rfl⟩
        cases w with
        | int n => exact absurd (hstr _ hw) (by simp [Scalar.type])
        | str u => exact hw
      · intro hv
        cases v with
        | int n => exact absurd (hstr _ hv) (by simp [Scalar.type])
        | str t => exact ⟨t, ⟨.str t, ⟨.str t, hv, rfl⟩, rfl⟩, rfl⟩

/-- `_values_type`. -/
def Values.type? (values : Values) : Option ScalarType :=
  values.toList.head?.map Scalar.type

theorem Values.type?_of_mem {values : Values} {v : Scalar} (hv : v ∈ values.toList) :
    values.type? = some v.type := by
  unfold Values.type?
  cases hl : values.toList with
  | nil => simp [hl] at hv
  | cons w rest =>
      have := values.homogeneous w (by simp [hl]) v hv
      simp [this]

/-! ## The poller's state -/

/-- What `__init__` fixes for the process lifetime. `config.load` refuses a confirm count below
    one. -/
structure Settings where
  pinned : Values
  removalConfirmPolls : ℕ
  removalConfirmPolls_pos : 0 < removalConfirmPolls

/-- The poll thread's state. `absentPolls` is the dict `_absent_polls`: value to the number of
    consecutive accepted polls it has been absent from. -/
structure State where
  values : Option Values
  absentPolls : List (Scalar × ℕ)
  synced : Bool
deriving DecidableEq

/-- `__init__` with a bootstrap set: `none` is the `ValueError` for pins outside it. -/
def State.init? (cfg : Settings) (bootstrap : Option Values) : Option State :=
  if ∀ v ∈ cfg.pinned.toList, ∃ vs, bootstrap = some vs ∧ v ∈ vs.toList then
    some { values := bootstrap, absentPolls := [], synced := false }
  else none

/-- `current()` as a set: the held tuple's distinct values, none before the first one. -/
def State.currentSet (s : State) : List Scalar :=
  match s.values with
  | some vs => vs.toList.dedup
  | none => []

/-- `self._absent_polls.get(v, 0)`. -/
def absentCount (counts : List (Scalar × ℕ)) (v : Scalar) : ℕ :=
  ((counts.find? (·.1 = v)).map Prod.snd).getD 0

/-- Why a poll was refused (the label on `include_values_refused_total`). -/
inductive RefuseReason where
  | typeFlip
  | empty
  | bulkRemoval
deriving DecidableEq, Repr

/-- What became of one poll. -/
inductive PollResult where
  | failed
  | refused (reason : RefuseReason)
  | accepted
deriving DecidableEq, Repr

/-! ## One poll -/

/-- The type-flip test: held and served arrays are both non-empty and of different types. -/
def typeFlip (s : State) (remote : Values) : Bool :=
  match s.values.bind Values.type?, remote.type? with
  | some held, some served => held ≠ served
  | _, _ => false

/-- The empty-remote refusal: something endpoint-managed is held, or there is no pin and either a
    held set or no set at all. -/
def emptyRefusal (cfg : Settings) (s : State) (remote : Values) : Bool :=
  remote.toList.isEmpty &&
    ((s.currentSet.any (· ∉ cfg.pinned.toList)) ||
      (cfg.pinned.toList.isEmpty && (!s.currentSet.isEmpty || s.values.isNone)))

/-- The values whose absence this poll counts: current, not served, not pinned. -/
def absentees (cfg : Settings) (s : State) (remote : Values) : List Scalar :=
  s.currentSet.filter (fun v => v ∉ remote.toList ∧ v ∉ cfg.pinned.toList)

/-- `tentative_counts`. -/
def tentativeCounts (cfg : Settings) (s : State) (remote : Values) : List (Scalar × ℕ) :=
  (absentees cfg s remote).map (fun v => (v, absentCount s.absentPolls v + 1))

/-- `confirmed_removals`. -/
def confirmedRemovals (cfg : Settings) (s : State) (remote : Values) : List Scalar :=
  (absentees cfg s remote).filter
    (fun v => cfg.removalConfirmPolls ≤ absentCount s.absentPolls v + 1)

def additions (s : State) (remote : Values) : List Scalar :=
  remote.toList.filter (· ∉ s.currentSet)

/-- `(current_set | additions | self._pinned) - confirmed_removals`. -/
def candidate (cfg : Settings) (s : State) (remote : Values) : List Scalar :=
  (s.currentSet ++ additions s remote ++ cfg.pinned.toList).filter (· ∉ confirmedRemovals cfg s remote)

/-- `current_set - (self._pinned - remote_set)`: the slice the endpoint governs. -/
def managed (cfg : Settings) (s : State) (remote : Values) : List Scalar :=
  s.currentSet.filter (fun v => ¬ (v ∈ cfg.pinned.toList ∧ v ∉ remote.toList))

/-- The bulk-removal guard: more than half of a multi-value managed slice would go at once. -/
def bulkRemoval (cfg : Settings) (s : State) (remote : Values) : Bool :=
  1 < (managed cfg s remote).length &&
    max 1 ((managed cfg s remote).length / 2) < (confirmedRemovals cfg s remote).length

/-- `_poll_once` once the fetched array is normalized. -/
def pollValues (cfg : Settings) (s : State) (remote : Values) : State × PollResult :=
  if typeFlip s remote then (s, .refused .typeFlip)
  else if emptyRefusal cfg s remote then (s, .refused .empty)
  else if (candidate cfg s remote).isEmpty && !s.currentSet.isEmpty then (s, .refused .empty)
  else if bulkRemoval cfg s remote then
    -- the additions still apply; the countdown state is not committed
    if (additions s remote).isEmpty then (s, .refused .bulkRemoval)
    else
      ({ s with
          values := some (normalizeSet (s.currentSet ++ additions s remote ++ cfg.pinned.toList)) },
        .refused .bulkRemoval)
  else
    ({ values :=
        if (∀ v ∈ candidate cfg s remote, v ∈ s.currentSet) ∧
            (∀ v ∈ s.currentSet, v ∈ candidate cfg s remote) ∧ s.values.isSome then s.values
        else some (normalizeSet (candidate cfg s remote)),
       absentPolls := (tentativeCounts cfg s remote).filter
        (fun c => c.1 ∉ confirmedRemovals cfg s remote),
       synced := true }, .accepted)

/-- `_poll_once` under `_run`'s handler: a fetch that raised (`none`) or an array `_normalize`
    refuses keeps the last set. -/
def pollOnce (cfg : Settings) (s : State) (fetched : Option (List Element)) : State × PollResult :=
  match fetched.bind normalize with
  | none => (s, .failed)
  | some remote => pollValues cfg s remote

/-! ## What one poll can do -/

@[simp] theorem mem_currentSet_some {vs : Values} {s : State} (h : s.values = some vs) (v : Scalar) :
    v ∈ s.currentSet ↔ v ∈ vs.toList := by
  simp [State.currentSet, h]

theorem currentSet_homogeneous (s : State) :
    ∀ v ∈ s.currentSet, ∀ w ∈ s.currentSet, v.type = w.type := by
  cases h : s.values with
  | none => simp [State.currentSet, h]
  | some vs =>
      intro v hv w hw
      exact vs.homogeneous v ((mem_currentSet_some h v).1 hv) w ((mem_currentSet_some h w).1 hw)

@[simp] theorem mem_absentees {cfg : Settings} {s : State} {remote : Values} {v : Scalar} :
    v ∈ absentees cfg s remote ↔
      v ∈ s.currentSet ∧ v ∉ remote.toList ∧ v ∉ cfg.pinned.toList := by
  simp [absentees]

@[simp] theorem mem_additions {s : State} {remote : Values} {v : Scalar} :
    v ∈ additions s remote ↔ v ∈ remote.toList ∧ v ∉ s.currentSet := by
  simp [additions]

theorem mem_confirmedRemovals {cfg : Settings} {s : State} {remote : Values} {v : Scalar} :
    v ∈ confirmedRemovals cfg s remote ↔
      v ∈ absentees cfg s remote ∧
        cfg.removalConfirmPolls ≤ absentCount s.absentPolls v + 1 := by
  simp only [confirmedRemovals, List.mem_filter, decide_eq_true_eq]

theorem mem_candidate {cfg : Settings} {s : State} {remote : Values} {v : Scalar} :
    v ∈ candidate cfg s remote ↔
      (v ∈ s.currentSet ∨ v ∈ remote.toList ∨ v ∈ cfg.pinned.toList) ∧
        v ∉ confirmedRemovals cfg s remote := by
  simp only [candidate, List.mem_filter, List.mem_append, mem_additions, decide_eq_true_eq]
  tauto

theorem mem_managed {cfg : Settings} {s : State} {remote : Values} {v : Scalar} :
    v ∈ managed cfg s remote ↔ v ∈ s.currentSet ∧ (v ∈ cfg.pinned.toList → v ∈ remote.toList) := by
  simp only [managed, List.mem_filter, decide_eq_true_eq, not_and, not_not]

theorem bulkRemoval_iff {cfg : Settings} {s : State} {remote : Values} :
    bulkRemoval cfg s remote = true ↔ 1 < (managed cfg s remote).length ∧
      max 1 ((managed cfg s remote).length / 2) < (confirmedRemovals cfg s remote).length := by
  simp [bulkRemoval]

theorem currentSet_nodup (s : State) : s.currentSet.Nodup := by
  unfold State.currentSet
  cases s.values with
  | none => exact List.nodup_nil
  | some vs => exact vs.toList.nodup_dedup

theorem confirmedRemovals_nodup (cfg : Settings) (s : State) (remote : Values) :
    (confirmedRemovals cfg s remote).Nodup :=
  ((currentSet_nodup s).filter _).filter _

/-- Whatever the endpoint serves stays a candidate. -/
theorem mem_candidate_of_served {cfg : Settings} {s : State} {remote : Values} {v : Scalar}
    (hv : v ∈ remote.toList) : v ∈ candidate cfg s remote := by
  rw [mem_candidate, mem_confirmedRemovals, mem_absentees]
  exact ⟨Or.inr (Or.inl hv), fun h => h.1.2.1 hv⟩

/-- The state invariant: pins are served, and only current values are counted down. -/
structure Consistent (cfg : Settings) (s : State) : Prop where
  pinsServed : ∀ v ∈ cfg.pinned.toList, v ∈ s.currentSet
  countedCurrent : ∀ v, 0 < absentCount s.absentPolls v → v ∈ s.currentSet

/-- Past the type-flip test, held and served values are of one type. -/
theorem served_type_eq {s : State} {remote : Values} (hflip : typeFlip s remote = false)
    {v w : Scalar} (hv : v ∈ s.currentSet) (hw : w ∈ remote.toList) : v.type = w.type := by
  cases hs : s.values with
  | none => simp [State.currentSet, hs] at hv
  | some vs =>
      have hheld : vs.type? = some v.type :=
        Values.type?_of_mem ((mem_currentSet_some hs v).1 hv)
      have hserved : remote.type? = some w.type := Values.type?_of_mem hw
      simpa [typeFlip, hs, hheld, hserved] using hflip

/-- Under a type flip no served value is held. -/
theorem not_mem_of_typeFlip {s : State} {remote : Values} (hflip : typeFlip s remote = true)
    {v : Scalar} (hv : v ∈ s.currentSet) : v ∉ remote.toList := by
  intro hw
  cases hs : s.values with
  | none => simp [State.currentSet, hs] at hv
  | some vs =>
      have hheld : vs.type? = some v.type :=
        Values.type?_of_mem ((mem_currentSet_some hs v).1 hv)
      have hserved : remote.type? = some v.type := Values.type?_of_mem hw
      simp [typeFlip, hs, hheld, hserved] at hflip

theorem union_homogeneous {cfg : Settings} {s : State} {remote : Values}
    (hc : Consistent cfg s) (hflip : typeFlip s remote = false) (v w : Scalar)
    (hv : v ∈ s.currentSet ∨ v ∈ remote.toList ∨ v ∈ cfg.pinned.toList)
    (hw : w ∈ s.currentSet ∨ w ∈ remote.toList ∨ w ∈ cfg.pinned.toList) : v.type = w.type := by
  have hpin : ∀ u, u ∈ s.currentSet ∨ u ∈ remote.toList ∨ u ∈ cfg.pinned.toList →
      u ∈ s.currentSet ∨ u ∈ remote.toList := by
    rintro u (h | h | h)
    · exact Or.inl h
    · exact Or.inr h
    · exact Or.inl (hc.pinsServed u h)
  rcases hpin v hv with hv | hv <;> rcases hpin w hw with hw | hw
  · exact currentSet_homogeneous s v hv w hw
  · exact served_type_eq hflip hv hw
  · exact (served_type_eq hflip hw hv).symm
  · exact remote.homogeneous v hv w hw

theorem absentCount_map (vs : List Scalar) (f : Scalar → ℕ) (v : Scalar) :
    absentCount (vs.map (fun w => (w, f w))) v = if v ∈ vs then f v else 0 := by
  induction vs with
  | nil => rfl
  | cons w rest ih =>
      by_cases h : w = v
      · subst h
        simp [absentCount]
      · have hne : ¬ v = w := fun he => h he.symm
        simp only [absentCount, List.map_cons, List.find?_cons, h, decide_false,
          List.mem_cons, hne, false_or] at ih ⊢
        exact ih

/-- The committed countdown: one more for a value still short of confirmation, nothing else. -/
theorem absentCount_committed (cfg : Settings) (s : State) (remote : Values) (v : Scalar) :
    absentCount ((tentativeCounts cfg s remote).filter
        (fun c => c.1 ∉ confirmedRemovals cfg s remote)) v
      = if v ∈ absentees cfg s remote ∧ v ∉ confirmedRemovals cfg s remote
        then absentCount s.absentPolls v + 1 else 0 := by
  have hcomm : (tentativeCounts cfg s remote).filter
        (fun c => c.1 ∉ confirmedRemovals cfg s remote)
      = ((absentees cfg s remote).filter (· ∉ confirmedRemovals cfg s remote)).map
          (fun v => (v, absentCount s.absentPolls v + 1)) := by
    simp [tentativeCounts, List.filter_map, Function.comp_def]
  rw [hcomm, absentCount_map]
  simp only [List.mem_filter, decide_eq_true_eq]

/-- What an unrefused poll leaves behind. -/
structure Accepts (cfg : Settings) (s : State) (remote : Values) (s' : State) : Prop where
  current : ∀ v, v ∈ s'.currentSet ↔ v ∈ candidate cfg s remote
  counts : ∀ v, absentCount s'.absentPolls v
    = if v ∈ absentees cfg s remote ∧ v ∉ confirmedRemovals cfg s remote
      then absentCount s.absentPolls v + 1 else 0

/-- What a bulk-refused poll leaves behind: the additions and an untouched countdown. -/
structure RefusesBulk (cfg : Settings) (s : State) (remote : Values) (s' : State) : Prop where
  current : ∀ v, v ∈ s'.currentSet ↔
    v ∈ s.currentSet ∨ v ∈ remote.toList ∨ v ∈ cfg.pinned.toList
  counts : s'.absentPolls = s.absentPolls

theorem pollValues_bulk {cfg : Settings} {s : State} {remote : Values} (hc : Consistent cfg s)
    (hflip : typeFlip s remote = false) (hempty : emptyRefusal cfg s remote = false)
    (hcand : ((candidate cfg s remote).isEmpty && !s.currentSet.isEmpty) = false)
    (hbulk : bulkRemoval cfg s remote = true) :
    (pollValues cfg s remote).2 = .refused .bulkRemoval ∧
      RefusesBulk cfg s remote (pollValues cfg s remote).1 := by
  simp only [pollValues, hflip, hempty, hcand, hbulk, Bool.false_eq_true, if_false, if_true]
  split
  · next hadd =>
      refine ⟨rfl, fun v => ?_, rfl⟩
      have hsub : v ∈ remote.toList → v ∈ s.currentSet := by
        intro hv
        by_contra hn
        have : v ∈ additions s remote := mem_additions.2 ⟨hv, hn⟩
        simp [List.isEmpty_iff.1 hadd] at this
      have := hc.pinsServed v
      tauto
  · refine ⟨rfl, fun v => ?_, rfl⟩
    rw [mem_currentSet_some rfl, mem_normalizeSet]
    · simp only [List.mem_append, mem_additions]
      tauto
    · simp only [List.mem_append, mem_additions]
      intro u hu w hw
      exact union_homogeneous hc hflip u w (by tauto) (by tauto)

theorem pollValues_accepted {cfg : Settings} {s : State} {remote : Values} (hc : Consistent cfg s)
    (hflip : typeFlip s remote = false) (hempty : emptyRefusal cfg s remote = false)
    (hcand : ((candidate cfg s remote).isEmpty && !s.currentSet.isEmpty) = false)
    (hbulk : bulkRemoval cfg s remote = false) :
    (pollValues cfg s remote).2 = .accepted ∧
      Accepts cfg s remote (pollValues cfg s remote).1 := by
  have hres : pollValues cfg s remote = (⟨if (∀ v ∈ candidate cfg s remote, v ∈ s.currentSet) ∧
          (∀ v ∈ s.currentSet, v ∈ candidate cfg s remote) ∧ s.values.isSome then s.values
        else some (normalizeSet (candidate cfg s remote)),
      (tentativeCounts cfg s remote).filter (fun c => c.1 ∉ confirmedRemovals cfg s remote),
      true⟩, .accepted) := by
    simp only [pollValues, hflip, hempty, hcand, hbulk, Bool.false_eq_true, if_false]
  rw [hres]
  refine ⟨rfl, fun v => ?_, fun v => absentCount_committed cfg s remote v⟩
  by_cases hsame : (∀ v ∈ candidate cfg s remote, v ∈ s.currentSet) ∧
      (∀ v ∈ s.currentSet, v ∈ candidate cfg s remote) ∧ s.values.isSome
  · rw [if_pos hsame]
    exact ⟨hsame.2.1 v, hsame.1 v⟩
  · rw [if_neg hsame, mem_currentSet_some rfl]
    refine mem_normalizeSet (fun u hu w hw => ?_) v
    exact union_homogeneous hc hflip u w (mem_candidate.1 hu).1 (mem_candidate.1 hw).1

/-- Everything one poll can do to a consistent state. -/
inductive PollStep (cfg : Settings) (s : State) (poll : Option (List Element)) : Prop where
  | failed (hserved : poll.bind normalize = none) (hres : pollOnce cfg s poll = (s, .failed))
  | typeFlip (remote : Values) (hserved : poll.bind normalize = some remote)
      (hflip : typeFlip s remote = true) (hres : pollOnce cfg s poll = (s, .refused .typeFlip))
  | empty (remote : Values) (hserved : poll.bind normalize = some remote)
      (hempty : remote.toList = []) (hres : pollOnce cfg s poll = (s, .refused .empty))
  | bulk (remote : Values) (hserved : poll.bind normalize = some remote)
      (hflip : IncludeValues.typeFlip s remote = false) (hbulk : bulkRemoval cfg s remote = true)
      (hres : (pollOnce cfg s poll).2 = .refused .bulkRemoval)
      (hnext : RefusesBulk cfg s remote (pollOnce cfg s poll).1)
  | accepted (remote : Values) (hserved : poll.bind normalize = some remote)
      (hflip : IncludeValues.typeFlip s remote = false) (hbulk : bulkRemoval cfg s remote = false)
      (hres : (pollOnce cfg s poll).2 = .accepted)
      (hnext : Accepts cfg s remote (pollOnce cfg s poll).1)

theorem pollOnce_step {cfg : Settings} {s : State} (hc : Consistent cfg s)
    (poll : Option (List Element)) : PollStep cfg s poll := by
  cases hserved : poll.bind normalize with
  | none => exact .failed hserved (by simp [pollOnce, hserved])
  | some remote =>
      have hpoll : pollOnce cfg s poll = pollValues cfg s remote := by simp [pollOnce, hserved]
      cases hflip : typeFlip s remote with
      | true => exact .typeFlip remote hserved hflip (by rw [hpoll]; simp [pollValues, hflip])
      | false =>
          cases hempty : emptyRefusal cfg s remote with
          | true =>
              refine .empty remote hserved ?_ (by rw [hpoll]; simp [pollValues, hflip, hempty])
              simp only [emptyRefusal, Bool.and_eq_true, List.isEmpty_iff] at hempty
              exact hempty.1
          | false =>
              cases hcand : (candidate cfg s remote).isEmpty && !s.currentSet.isEmpty with
              | true =>
                  refine .empty remote hserved ?_
                    (by rw [hpoll]; simp only [pollValues, hflip, hempty, hcand, Bool.false_eq_true,
                      if_false, if_true])
                  simp only [Bool.and_eq_true, List.isEmpty_iff] at hcand
                  refine List.eq_nil_iff_forall_not_mem.2 (fun v hv => ?_)
                  have hmem : v ∈ candidate cfg s remote := mem_candidate_of_served hv
                  simp [hcand.1] at hmem
              | false =>
                  cases hbulk : bulkRemoval cfg s remote with
                  | true =>
                      obtain ⟨hres, hnext⟩ := pollValues_bulk hc hflip hempty hcand hbulk
                      rw [← hpoll] at hres hnext
                      exact .bulk remote hserved hflip hbulk hres hnext
                  | false =>
                      obtain ⟨hres, hnext⟩ := pollValues_accepted hc hflip hempty hcand hbulk
                      rw [← hpoll] at hres hnext
                      exact .accepted remote hserved hflip hbulk hres hnext

theorem init?_consistent {cfg : Settings} {bootstrap : Option Values} {s : State}
    (h : State.init? cfg bootstrap = some s) : Consistent cfg s := by
  simp only [State.init?] at h
  split at h
  · next hsub =>
      simp only [Option.some.injEq] at h
      subst h
      refine ⟨fun v hv => ?_, fun v hv => by simp [absentCount] at hv⟩
      obtain ⟨vs, hvs, hmem⟩ := hsub v hv
      exact (mem_currentSet_some hvs v).2 hmem
  · exact absurd h (by simp)

/-- One poll keeps the invariant. -/
theorem pollOnce_consistent {cfg : Settings} {s : State} (hc : Consistent cfg s)
    (poll : Option (List Element)) : Consistent cfg (pollOnce cfg s poll).1 := by
  cases pollOnce_step hc poll with
  | failed _ hres => rw [hres]; exact hc
  | typeFlip _ _ _ hres => rw [hres]; exact hc
  | empty _ _ _ hres => rw [hres]; exact hc
  | bulk remote _ _ _ _ hnext =>
      refine ⟨fun v hv => (hnext.current v).2 (Or.inr (Or.inr hv)), fun v hv => ?_⟩
      rw [hnext.counts] at hv
      exact (hnext.current v).2 (Or.inl (hc.countedCurrent v hv))
  | accepted remote _ _ _ _ hnext =>
      refine ⟨fun v hv => ?_, fun v hv => ?_⟩
      · rw [hnext.current, mem_candidate, mem_confirmedRemovals, mem_absentees]
        exact ⟨Or.inr (Or.inr hv), fun h => h.1.2.2 hv⟩
      · rw [hnext.counts] at hv
        split at hv
        · next h =>
            rw [hnext.current, mem_candidate]
            exact ⟨Or.inl (mem_absentees.1 h.1).1, h.2⟩
        · exact absurd hv (by simp)

/-! ## Runs of polls -/

/-- One poll: what `_fetch` returned, or `none` when it raised. -/
abbrev Poll := Option (List Element)

/-- The array a poll fetched successfully, as `_poll_once` reads it. -/
def servedArray (poll : Poll) : Option Values := poll.bind normalize

/-- The state after a list of polls. -/
def runPolls (cfg : Settings) (s : State) (polls : List Poll) : State :=
  polls.foldl (fun s poll => (pollOnce cfg s poll).1) s

@[simp] theorem runPolls_nil (cfg : Settings) (s : State) : runPolls cfg s [] = s := rfl

theorem runPolls_snoc (cfg : Settings) (s : State) (polls : List Poll) (poll : Poll) :
    runPolls cfg s (polls ++ [poll]) = (pollOnce cfg (runPolls cfg s polls) poll).1 := by
  simp [runPolls]

/-- The state before poll number `k` of a run. -/
def stateBefore (cfg : Settings) (s : State) (polls : List Poll) (k : ℕ) : State :=
  runPolls cfg s (polls.take k)

theorem stateBefore_succ (cfg : Settings) (s : State) (polls : List Poll) (k : ℕ)
    (hk : k < polls.length) :
    stateBefore cfg s polls (k + 1)
      = (pollOnce cfg (stateBefore cfg s polls k) polls[k]).1 := by
  rw [stateBefore, List.take_add_one, List.getElem?_eq_getElem hk, Option.toList_some,
    runPolls_snoc, stateBefore]

theorem runPolls_consistent {cfg : Settings} {s : State} (hc : Consistent cfg s)
    (polls : List Poll) : Consistent cfg (runPolls cfg s polls) := by
  induction polls generalizing s with
  | nil => exact hc
  | cons poll rest ih => exact ih (pollOnce_consistent hc poll)

theorem stateBefore_consistent {cfg : Settings} {s : State} (hc : Consistent cfg s)
    (polls : List Poll) (k : ℕ) : Consistent cfg (stateBefore cfg s polls k) :=
  runPolls_consistent hc _

end Millpond.IncludeValues
