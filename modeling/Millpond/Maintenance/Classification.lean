import Millpond.Maintenance.Enumeration

set_option autoImplicit false

/-! # Where the files of an enumeration end up

`_classify_enumeration` puts every row into one of five classes, or aborts. The one thing in its way
is an exception of `_compose_part_ts` that nothing catches. -/

namespace Millpond.Maintenance

variable {spec : PartitionSpec} {cutoff floorSnap maxFiles maxRot : ℤ} {row : EnumRow}
  {rows : List EnumRow}

/-! ## What `_compose_part_ts` raises -/

/-- A C `int`. -/
def isCInt (n : ℤ) : Bool := -2147483648 ≤ n ∧ n ≤ 2147483647

/-- The composition gets past the time values, and then a component is not there, or is too large for
    `datetime()` to take. -/
structure Raises (spec : PartitionSpec) (values : TupleMap) : Prop where
  integers : ∀ t ∈ timeTransforms, timeField spec values t ≠ some none
  component : (∃ t ∈ ["year", "month", "day"], timeField spec values t = none) ∨
    ∃ t ∈ timeTransforms, ∃ n, timeField spec values t = some (some n) ∧ isCInt n = false

/-- An exception that is no `_DropAbort`. -/
def PlanAbort.isDropAbort : PlanAbort → Bool
  | .overflow => false
  | .keyError => false
  | _ => true

theorem datetimeUtc_error_iff {year month day hour : ℤ} :
    (∃ e, datetimeUtc year month day hour = .error e) ↔
      ∃ n ∈ [year, month, day, hour], isCInt n = false := by
  have hbounds : ∀ n : ℤ, isCInt n = false ↔ n < -2147483648 ∨ 2147483647 < n := by
    intro n
    simp only [isCInt, decide_eq_false_iff_not]
    omega
  simp only [hbounds]
  unfold datetimeUtc
  by_cases hany : ([year, month, day, hour].any fun v =>
      decide (v < -2147483648 ∨ 2147483647 < v)) = true
  · rw [if_pos hany]
    simp only [List.any_eq_true, decide_eq_true_eq] at hany
    exact ⟨fun _ => hany, fun _ => ⟨_, rfl⟩⟩
  · rw [if_neg hany]
    simp only [List.any_eq_true, decide_eq_true_eq] at hany
    constructor
    · rintro ⟨e, he⟩
      split_ifs at he
    · exact fun h => absurd h hany

theorem composePartTs_error {values : TupleMap} {e : PlanAbort}
    (h : composePartTs spec values = .error e) : e.isDropAbort = false := by
  unfold composePartTs at h
  simp only at h
  split_ifs at h
  split at h
  · unfold datetimeUtc at h
    split_ifs at h
    obtain rfl := Except.error.inj h
    rfl
  · obtain rfl := Except.error.inj h
    rfl

/-- A key that is not there, or one whose value is an integer. -/
theorem timeField_cases {values : TupleMap} {t : String} (h : timeField spec values t ≠ some none) :
    timeField spec values t = none ∨ ∃ n, timeField spec values t = some (some n) := by
  cases hfield : timeField spec values t with
  | none => exact Or.inl rfl
  | some value =>
      cases value with
      | none => exact absurd hfield h
      | some n => exact Or.inr ⟨n, rfl⟩

theorem any_unreadable {values : TupleMap}
    (h : ∀ t ∈ timeTransforms, timeField spec values t ≠ some none) :
    (timeTransforms.any fun t => timeField spec values t == some none) = false := by
  rw [List.any_eq_false]
  exact fun t ht => by simpa using h t ht

/-- A component that is not there is a `KeyError`. -/
theorem composePartTs_missing {values : TupleMap}
    (h : ∀ t ∈ timeTransforms, timeField spec values t ≠ some none)
    (hmissing : timeField spec values "year" = none ∨ timeField spec values "month" = none ∨
      timeField spec values "day" = none) : composePartTs spec values = .error .keyError := by
  unfold composePartTs
  simp only [any_unreadable h, Bool.false_eq_true, if_false]
  split
  · next hyear hmonth hday =>
      rcases hmissing with hnone | hnone | hnone
      · simp [hnone] at hyear
      · simp [hnone] at hmonth
      · simp [hnone] at hday
  · rfl

theorem composePartTs_present {values : TupleMap}
    (h : ∀ t ∈ timeTransforms, timeField spec values t ≠ some none) {year month day : ℤ}
    (hyear : timeField spec values "year" = some (some year))
    (hmonth : timeField spec values "month" = some (some month))
    (hday : timeField spec values "day" = some (some day)) :
    composePartTs spec values
      = datetimeUtc year month day ((timeField spec values "hour").join.getD 0) := by
  unfold composePartTs
  simp only [any_unreadable h, Bool.false_eq_true, if_false, hyear, hmonth, hday, Option.join_some]

theorem composePartTs_error_iff {values : TupleMap} :
    (∃ e, composePartTs spec values = .error e) ↔ Raises spec values := by
  by_cases hintegers : ∀ t ∈ timeTransforms, timeField spec values t ≠ some none
  · have hraises : Raises spec values ↔
        (∃ t ∈ ["year", "month", "day"], timeField spec values t = none) ∨
          ∃ t ∈ timeTransforms, ∃ n, timeField spec values t = some (some n) ∧ isCInt n = false :=
      ⟨fun h => h.component, fun h => ⟨hintegers, h⟩⟩
    have hmem : ∀ t, t ∈ timeTransforms ↔ t = "year" ∨ t = "month" ∨ t = "day" ∨ t = "hour" := by
      intro t
      simp [timeTransforms]
    have hcases := fun t ht => timeField_cases (hintegers t ht)
    rw [hraises]
    rcases hcases "year" (by simp [hmem]) with hyear | ⟨year, hyear⟩
    · simp [composePartTs_missing hintegers (Or.inl hyear), hyear]
    rcases hcases "month" (by simp [hmem]) with hmonth | ⟨month, hmonth⟩
    · simp [composePartTs_missing hintegers (Or.inr (Or.inl hmonth)), hmonth]
    rcases hcases "day" (by simp [hmem]) with hday | ⟨day, hday⟩
    · simp [composePartTs_missing hintegers (Or.inr (Or.inr hday)), hday]
    rw [composePartTs_present hintegers hyear hmonth hday, datetimeUtc_error_iff]
    rcases hcases "hour" (by simp [hmem]) with hhour | ⟨hour, hhour⟩
    · have hzero : isCInt 0 = true := by decide
      simp [hmem, hyear, hmonth, hday, hhour, hzero, or_and_right, exists_or]
    · simp [hmem, hyear, hmonth, hday, hhour, or_and_right, exists_or]
  · constructor
    · rintro ⟨e, he⟩
      have hany : (timeTransforms.any fun t => timeField spec values t == some none) = true := by
        push Not at hintegers
        obtain ⟨t, ht, hnone⟩ := hintegers
        exact List.any_eq_true.2 ⟨t, ht, by simpa using hnone⟩
      unfold composePartTs at he
      simp only [hany, if_true] at he
      cases he
    · exact fun h => absurd h.integers hintegers

/-! ## Classes of rows -/

/-- A row with exactly the key set of the spec, and its instant. -/
def EnumRow.Composes (spec : PartitionSpec) (row : EnumRow) (ts : ℤ) : Prop :=
  row.sane spec = true ∧ composePartTs spec row.column = .ok (some ts)

/-- The instant of a row that has one. -/
def EnumRow.instant (spec : PartitionSpec) (row : EnumRow) : Option ℤ :=
  (row.partTs spec).toOption.join

theorem instant_eq_some {ts : ℤ} : row.instant spec = some ts ↔ row.Composes spec ts := by
  unfold EnumRow.instant EnumRow.Composes EnumRow.partTs
  by_cases hsane : row.sane spec = true
  · rw [if_pos hsane]
    cases hts : composePartTs spec row.column with
    | error e => simp [Except.toOption]
    | ok partTs => simp [Except.toOption, hsane]
  · rw [if_neg hsane]
    simp [Except.toOption, hsane]

theorem instant_of_partTs {partTs : Option ℤ} (h : row.partTs spec = .ok partTs) :
    row.instant spec = partTs := by
  rw [EnumRow.instant, h]
  rfl

/-- Live spec, and no instant. -/
def EnumRow.isRot (spec : PartitionSpec) (row : EnumRow) : Bool :=
  row.partitionId = some spec.partitionId ∧ row.instant spec = none

/-- Live spec, below the cutoff, above the floor. -/
def EnumRow.isFloored (spec : PartitionSpec) (cutoff floorSnap : ℤ) (row : EnumRow) : Bool :=
  row.partitionId = some spec.partitionId ∧ (row.instant spec).any (· < cutoff) ∧
    floorSnap < row.beginSnapshot

/-- Live spec, below the cutoff, not above the floor. -/
def EnumRow.isMember (spec : PartitionSpec) (cutoff floorSnap : ℤ) (row : EnumRow) : Bool :=
  row.partitionId = some spec.partitionId ∧ (row.instant spec).any (· < cutoff) ∧
    (row.beginSnapshot : ℤ) ≤ floorSnap

/-- Old spec, and not provably at or above the cutoff. -/
def EnumRow.isBlocking (spec : PartitionSpec) (cutoff : ℤ) (row : EnumRow) : Bool :=
  row.partitionId ≠ some spec.partitionId ∧ (row.instant spec).all (· < cutoff)

/-- The classes of files. -/
inductive FileClass where
  | leafMember
  | rot
  | floored
  | atCutoff
  | oldSpecAtCutoff
deriving DecidableEq, Repr

/-- What it is for a file to fall in a class. -/
def Falls (spec : PartitionSpec) (cutoff floorSnap : ℤ) (listing : Listing) (row : EnumRow) :
    FileClass → Prop
  | .leafMember => ∃ leaf ∈ listing.leaves, ∃ f ∈ leaf.files, f.dataFileId = row.dataFileId
  | .rot => row.partitionId = some spec.partitionId ∧ ¬ ∃ ts, row.Composes spec ts
  | .floored => row.partitionId = some spec.partitionId ∧
      (∃ ts < cutoff, row.Composes spec ts) ∧ floorSnap < row.beginSnapshot
  | .atCutoff => row.partitionId = some spec.partitionId ∧ ∃ ts ≥ cutoff, row.Composes spec ts
  | .oldSpecAtCutoff =>
      row.partitionId ≠ some spec.partitionId ∧ ∃ ts ≥ cutoff, row.Composes spec ts

/-! ## The property -/

/-- A listing is right about its rows. -/
structure ListingRight (spec : PartitionSpec) (cutoff floorSnap maxFiles : ℤ) (rows : List EnumRow)
    (listing : Listing) : Prop where
  classified : ∀ row ∈ rows, ∃! k, Falls spec cutoff floorSnap listing row k
  rotFiles : listing.rotFiles = (rows.filter (EnumRow.isRot spec)).length
  rotSamples : listing.rotSamples
    = ((rows.filter (EnumRow.isRot spec)).map EnumRow.dataFileId).take 10
  flooredFiles : listing.flooredFiles
    = (rows.filter (EnumRow.isFloored spec cutoff floorSnap)).length
  /-- The members are in the leaves, and nothing else is. -/
  exactly : (listing.leaves.flatMap Leaf.files).Perm
    ((rows.filter (EnumRow.isMember spec cutoff floorSnap)).map EnumRow.leafFile)
  /-- Each file once. -/
  once : ((listing.leaves.flatMap Leaf.files).map LeafFile.dataFileId).Nodup
  /-- A leaf has the members with its key values, all of them, and their instant. -/
  own : ∀ leaf ∈ listing.leaves, ∃ key, leaf.values = (spec.keys.map PartitionKey.address).zip key ∧
    leaf.files = (rows.filter fun row =>
      row.isMember spec cutoff floorSnap && row.bucketKey spec = key).map EnumRow.leafFile ∧
    ∀ row ∈ rows, row.isMember spec cutoff floorSnap = true → row.bucketKey spec = key →
      row.Composes spec leaf.partTs
  oldestFirst : listing.leaves.Pairwise fun a b => a.partTs ≤ b.partTs
  oversized : ∀ leaf ∈ listing.leaves, leaf.oversized = true ↔ maxFiles < leaf.files.length

/-- An abort is a `_DropAbort`, and is for an old-spec file that may be in the window or for too much
    rot; without an abort the listing is right. -/
structure Classifies (spec : PartitionSpec) (cutoff floorSnap maxFiles maxRot : ℤ)
    (rows : List EnumRow) (result : Except PlanAbort Listing) : Prop where
  raises : ∀ e, result = .error e → e.isDropAbort = true
  aborts : (∃ e, result = .error e ∧ e.isDropAbort = true) ↔
    (∃ row ∈ rows, row.partitionId ≠ some spec.partitionId ∧ ¬ ∃ ts ≥ cutoff, row.Composes spec ts) ∨
      maxRot < (rows.filter (EnumRow.isRot spec)).length
  listing : ∀ listing, result = .ok listing →
    ListingRight spec cutoff floorSnap maxFiles rows listing

/-! ## The predicates of rows -/

theorem isRot_iff : row.isRot spec = true ↔
    row.partitionId = some spec.partitionId ∧ ¬ ∃ ts, row.Composes spec ts := by
  simp only [EnumRow.isRot, decide_eq_true_eq, Option.eq_none_iff_forall_ne_some, ne_eq,
    instant_eq_some, not_exists]

theorem any_instant_iff : (row.instant spec).any (· < cutoff) = true ↔
    ∃ ts < cutoff, row.Composes spec ts := by
  simp only [Option.any_eq_true, instant_eq_some, decide_eq_true_eq]
  exact ⟨fun ⟨ts, h, hlt⟩ => ⟨ts, hlt, h⟩, fun ⟨ts, hlt, h⟩ => ⟨ts, h, hlt⟩⟩

theorem isFloored_iff : row.isFloored spec cutoff floorSnap = true ↔
    row.partitionId = some spec.partitionId ∧ (∃ ts < cutoff, row.Composes spec ts) ∧
      floorSnap < row.beginSnapshot := by
  simp only [EnumRow.isFloored, decide_eq_true_eq, any_instant_iff]

theorem isMember_iff : row.isMember spec cutoff floorSnap = true ↔
    row.partitionId = some spec.partitionId ∧ (∃ ts < cutoff, row.Composes spec ts) ∧
      (row.beginSnapshot : ℤ) ≤ floorSnap := by
  simp only [EnumRow.isMember, decide_eq_true_eq, any_instant_iff]

theorem isBlocking_iff : row.isBlocking spec cutoff = true ↔
    row.partitionId ≠ some spec.partitionId ∧ ¬ ∃ ts ≥ cutoff, row.Composes spec ts := by
  simp only [EnumRow.isBlocking, decide_eq_true_eq]
  refine and_congr_right fun _ => ?_
  cases hts : row.instant spec with
  | none =>
      simp only [Option.all_none, true_iff]
      rintro ⟨ts, _, h⟩
      rw [← instant_eq_some, hts] at h
      cases h
  | some ts =>
      simp only [Option.all_some, decide_eq_true_eq]
      constructor
      · rintro hlt ⟨ts', hge, h⟩
        rw [← instant_eq_some, hts] at h
        obtain rfl := Option.some.inj h
        exact absurd hlt (not_lt.2 hge)
      · exact fun h => not_le.1 fun hge => h ⟨ts, hge, instant_eq_some.1 hts⟩

theorem Composes.unique {ts ts' : ℤ} (h : row.Composes spec ts) (h' : row.Composes spec ts') :
    ts = ts' :=
  Option.some.inj ((instant_eq_some.2 h).symm.trans (instant_eq_some.2 h'))

/-- A row raises when it is sane and its composition does. -/
theorem partTs_error_iff :
    (∃ e, row.partTs spec = .error e) ↔ row.sane spec = true ∧ Raises spec row.column := by
  unfold EnumRow.partTs
  by_cases hsane : row.sane spec = true
  · rw [if_pos hsane, composePartTs_error_iff]
    exact ⟨fun h => ⟨hsane, h⟩, fun h => h.2⟩
  · rw [if_neg hsane]
    constructor
    · rintro ⟨e, he⟩
      cases he
    · exact fun h => absurd h.1 hsane

theorem candidate_isSome : (row.candidate spec cutoff floorSnap).isSome = true ↔
    row.isMember spec cutoff floorSnap = true := by
  rw [Option.isSome_iff_exists, isMember_iff]
  constructor
  · rintro ⟨r, hr⟩
    obtain ⟨rfl, hts, hfits⟩ := candidate_eq_some.1 hr
    obtain ⟨hlive, hlt, hfloor⟩ := fits_iff.1 hfits
    exact ⟨hlive, ⟨r.2, hlt, instant_eq_some.1 (instant_of_partTs hts)⟩, hfloor⟩
  · rintro ⟨hlive, ⟨ts, hlt, hsane, hts⟩, hfloor⟩
    refine ⟨(row, ts), candidate_eq_some.2 ⟨rfl, ?_, fits_iff.2 ⟨hlive, hlt, hfloor⟩⟩⟩
    rw [EnumRow.partTs, if_pos hsane]
    exact hts

/-! ## The loop -/

/-- The counters of the loop, by the rows gone by. -/
structure Classification.Counted (spec : PartitionSpec) (cutoff floorSnap : ℤ) (done : List EnumRow)
    (st : Classification) : Prop where
  rot : st.rot = (done.filter (EnumRow.isRot spec)).length
  rotSamples : st.rotSamples
    = ((done.filter (EnumRow.isRot spec)).map EnumRow.dataFileId).take 10
  floored : st.floored = (done.filter (EnumRow.isFloored spec cutoff floorSnap)).length
  blocking : st.oldSpecBlocking.length = (done.filter (EnumRow.isBlocking spec cutoff)).length

/-- The first ten of a list that grows. -/
theorem take_append_singleton {α : Type} (l : List α) (a : α) :
    (l ++ [a]).take 10 = if (l.take 10).length < 10 then l.take 10 ++ [a] else l.take 10 := by
  rw [List.length_take]
  by_cases h : l.length < 10
  · rw [if_pos (by omega), List.take_of_length_le (by simp; omega), List.take_of_length_le (by omega)]
  · rw [if_neg (by omega), List.take_append_of_le_length (by omega)]

theorem add_counted {done : List EnumRow} {st : Classification} {partTs : Option ℤ}
    (hst : st.Counted spec cutoff floorSnap done) (h : row.partTs spec = .ok partTs) :
    (st.add spec cutoff floorSnap row partTs).Counted spec cutoff floorSnap (done ++ [row]) := by
  have hinstant := instant_of_partTs h
  obtain ⟨hrot, hsamples, hfloored, hblocking⟩ := hst
  unfold Classification.add
  by_cases hlive : row.partitionId = some spec.partitionId
  · rw [if_neg (not_not.2 hlive)]
    cases partTs with
    | none =>
        have hisRot : row.isRot spec = true := by simp [EnumRow.isRot, hlive, hinstant]
        have hnotFloored : ¬ row.isFloored spec cutoff floorSnap = true := by
          simp [EnumRow.isFloored, hinstant]
        have hnotBlocking : ¬ row.isBlocking spec cutoff = true := by
          simp [EnumRow.isBlocking, hlive]
        constructor
        · simp [Classification.addRot, hisRot, hrot]
        · simp only [Option.elim_none, Classification.addRot, List.filter_append, List.map_append]
          rw [List.filter_cons_of_pos hisRot, List.filter_nil, List.map_singleton,
            take_append_singleton, hsamples]
        · simp [Classification.addRot, hnotFloored, hfloored]
        · simp [Classification.addRot, hnotBlocking, hblocking]
    | some ts =>
        have hnotRot : ¬ row.isRot spec = true := by simp [EnumRow.isRot, hinstant]
        have hnotBlocking : ¬ row.isBlocking spec cutoff = true := by
          simp [EnumRow.isBlocking, hlive]
        rw [Option.elim_some, Classification.addSane]
        by_cases hcut : cutoff ≤ ts
        · have hnotFloored : ¬ row.isFloored spec cutoff floorSnap = true := by
            simp [EnumRow.isFloored, hinstant, hcut]
          rw [if_pos hcut]
          constructor <;> simp [*]
        · rw [if_neg hcut]
          by_cases hfloor : floorSnap < row.beginSnapshot
          · have hisFloored : row.isFloored spec cutoff floorSnap = true := by
              simp [EnumRow.isFloored, hlive, hinstant, not_le.1 hcut, hfloor]
            rw [if_pos hfloor]
            constructor <;> simp [*]
          · have hnotFloored : ¬ row.isFloored spec cutoff floorSnap = true := by
              simp [EnumRow.isFloored, not_lt.1 hfloor]
            rw [if_neg hfloor]
            constructor <;> simp [*]
  · have hnotRot : ¬ row.isRot spec = true := by simp [EnumRow.isRot, hlive]
    have hnotFloored : ¬ row.isFloored spec cutoff floorSnap = true := by
      simp [EnumRow.isFloored, hlive]
    rw [if_pos hlive]
    by_cases hblocks : partTs.all (· < cutoff) = true
    · have hisBlocking : row.isBlocking spec cutoff = true := by
        simp only [EnumRow.isBlocking, decide_eq_true_eq, hinstant]
        exact ⟨hlive, hblocks⟩
      rw [if_pos hblocks]
      constructor <;> simp [*]
    · have hnotBlocking : ¬ row.isBlocking spec cutoff = true := by
        simp only [EnumRow.isBlocking, decide_eq_true_eq, hinstant]
        exact fun h => hblocks h.2
      rw [if_neg hblocks]
      constructor <;> simp [*]

theorem classifyRow_counted {done : List EnumRow} {st st' : Classification}
    (hst : st.Counted spec cutoff floorSnap done)
    (h : classifyRow spec cutoff floorSnap st row = .ok st') :
    st'.Counted spec cutoff floorSnap (done ++ [row]) := by
  obtain ⟨partTs, hts, hst'⟩ := bind_eq_ok.1 h
  obtain rfl := Except.ok.inj hst'
  exact add_counted hst hts

theorem classifyRows_counted {st : Classification}
    (h : rows.foldlM (classifyRow spec cutoff floorSnap) ⟨0, [], 0, [], []⟩ = .ok st) :
    st.Counted spec cutoff floorSnap rows := by
  have hstart : Classification.Counted spec cutoff floorSnap [] ⟨0, [], 0, [], []⟩ :=
    ⟨rfl, rfl, rfl, rfl⟩
  exact foldlM_ok_induction (fun _ _ _ _ hst hrow => classifyRow_counted hst hrow) hstart h

/-- The loop gets through exactly when no row raises. -/
theorem classifyRows_ok_iff (st : Classification) :
    (∃ st', rows.foldlM (classifyRow spec cutoff floorSnap) st = .ok st') ↔
      ∀ row ∈ rows, ¬ (row.sane spec = true ∧ Raises spec row.column) := by
  induction rows generalizing st with
  | nil => exact ⟨fun _ => by simp, fun _ => ⟨st, rfl⟩⟩
  | cons row rest ih =>
      rw [List.foldlM_cons, List.forall_mem_cons]
      constructor
      · rintro ⟨st', h⟩
        obtain ⟨st₁, hrow, hrest⟩ := bind_eq_ok.1 h
        obtain ⟨partTs, hts, _⟩ := bind_eq_ok.1 hrow
        refine ⟨fun hraises => ?_, (ih st₁).1 ⟨st', hrest⟩⟩
        obtain ⟨e, he⟩ := partTs_error_iff.2 hraises
        rw [hts] at he
        cases he
      · rintro ⟨hrow, hrest⟩
        cases hts : row.partTs spec with
        | error e => exact absurd (partTs_error_iff.1 ⟨e, hts⟩) hrow
        | ok partTs =>
            obtain ⟨st', hst'⟩ := (ih (st.add spec cutoff floorSnap row partTs)).2 hrest
            refine ⟨st', bind_eq_ok.2 ⟨_, bind_eq_ok.2 ⟨partTs, hts, rfl⟩, hst'⟩⟩

/-- What the loop raises is no `_DropAbort`. -/
theorem classifyRows_error {st : Classification} {e : PlanAbort}
    (h : rows.foldlM (classifyRow spec cutoff floorSnap) st = .error e) :
    e.isDropAbort = false := by
  induction rows generalizing st with
  | nil => cases h
  | cons row rest ih =>
      rw [List.foldlM_cons] at h
      unfold classifyRow at h
      cases hts : row.partTs spec with
      | error e' =>
          rw [hts] at h
          obtain rfl := Except.error.inj h
          unfold EnumRow.partTs at hts
          split_ifs at hts
          exact composePartTs_error hts
      | ok partTs =>
          rw [hts] at h
          exact ih h

/-! ## A listing is right about its rows -/

/-- The files of the candidates that `p` selects are those of the members it selects. -/
theorem candidates_files (p : EnumRow → Bool) (rows : List EnumRow) :
    (((rows.filterMap (EnumRow.candidate spec cutoff floorSnap)).filter fun r => p r.1).map
        fun r => r.1.leafFile)
      = (rows.filter fun row => row.isMember spec cutoff floorSnap && p row).map
          EnumRow.leafFile := by
  induction rows with
  | nil => rfl
  | cons row rest ih =>
      cases hcandidate : row.candidate spec cutoff floorSnap with
      | none =>
          have hnot : row.isMember spec cutoff floorSnap = false := by
            rw [← Bool.not_eq_true, ← candidate_isSome, hcandidate]
            simp
          rw [List.filterMap_cons_none hcandidate, ih, List.filter_cons_of_neg (by simp [hnot])]
      | some r =>
          have hmember : row.isMember spec cutoff floorSnap = true :=
            candidate_isSome.1 (by rw [hcandidate]; rfl)
          obtain ⟨rfl, _, _⟩ := candidate_eq_some.1 hcandidate
          rw [List.filterMap_cons_some hcandidate]
          by_cases hp : p r.1 = true <;>
            simp only [List.filter_cons, hp, hmember, Bool.and_self, Bool.and_false, Bool.false_eq_true,
              if_true, if_false, List.map_cons, ih]

theorem leafBuckets_files (candidates : List (EnumRow × ℤ)) :
    ((leafBuckets spec candidates).flatMap fun bucket => bucket.2.files).Perm
      (candidates.map fun r => r.1.leafFile) :=
  Groups.flatMap_collect_perm (fun r => r.1.leafFile) Leaf.files (fun _ => rfl) (fun _ _ => rfl)
    candidates

/-- Rows with the same key values have the same instant. -/
theorem composes_of_bucketKey {row row' : EnumRow} {ts : ℤ} (h : row.Composes spec ts)
    (hsane : row'.sane spec = true) (hkey : row'.bucketKey spec = row.bucketKey spec) :
    row'.Composes spec ts := by
  have hcolumn : ∀ {r : EnumRow}, r.sane spec = true → ∀ k ∈ spec.keys,
      r.column k.index = some (r.text k.index) := by
    intro r hr k hk
    simp only [EnumRow.sane, decide_eq_true_eq] at hr
    obtain ⟨value, hvalue⟩ := Option.isSome_iff_exists.1 (hr.2.2 k hk)
    rw [EnumRow.text, hvalue]
    rfl
  have htext : ∀ k ∈ spec.keys, row'.text k.index = row.text k.index := List.map_inj_left.1 hkey
  refine ⟨hsane, ?_⟩
  rw [← h.2]
  exact composePartTs_congr fun k hk => by rw [hcolumn hsane k hk, hcolumn h.1 k hk, htext k hk]

/-- A leaf of a listing, by the key values of its bucket. -/
theorem leaf_own {listing : Listing} {leaf : Leaf}
    (h : classifyEnumeration spec cutoff floorSnap maxFiles maxRot rows = .ok listing)
    (hleaf : leaf ∈ listing.leaves) :
    ∃ key, leaf.values = (spec.keys.map PartitionKey.address).zip key ∧
      leaf.files = (rows.filter fun row =>
        row.isMember spec cutoff floorSnap && row.bucketKey spec = key).map EnumRow.leafFile ∧
      ∀ row ∈ rows, row.isMember spec cutoff floorSnap = true → row.bucketKey spec = key →
        row.Composes spec leaf.partTs := by
  obtain ⟨⟨key, b⟩, hbucket, rfl⟩ := (mem_leaves h).1 hleaf
  have hmembers := Groups.mem_collect.1 hbucket
  have hfiles : (((rows.filterMap (EnumRow.candidate spec cutoff floorSnap)).filter fun r =>
      r.1.bucketKey spec = key).map fun r => r.1.leafFile) = _ :=
    candidates_files (fun row => decide (row.bucketKey spec = key)) rows
  cases hlist : (rows.filterMap (EnumRow.candidate spec cutoff floorSnap)).filter
      fun r => r.1.bucketKey spec = key with
  | nil =>
      rw [hlist] at hmembers
      cases hmembers
  | cons first rest =>
      rw [hlist, fromMembers_leaf] at hmembers
      obtain rfl := Option.some.inj hmembers
      have hfirst := List.mem_filter.1 (hlist ▸ List.mem_cons_self : first ∈ _)
      obtain ⟨row, _, hcandidate⟩ := List.mem_filterMap.1 hfirst.1
      obtain ⟨rfl, hts, _⟩ := candidate_eq_some.1 hcandidate
      obtain rfl : first.1.bucketKey spec = key := by simpa using hfirst.2
      refine ⟨first.1.bucketKey spec, List.zip_map'.symm, ?_, fun row _ hmember hkey => ?_⟩
      · rw [← hfiles, hlist]
        rfl
      · obtain ⟨_, ⟨_, _, hcomposes⟩, _⟩ := isMember_iff.1 hmember
        exact composes_of_bucketKey (instant_eq_some.1 (instant_of_partTs hts)) hcomposes.1 hkey

instance : Std.Total (α := Leaf) (fun a b => a.before b) where
  total a b := by
    simp only [Leaf.before, decide_eq_true_eq]
    rcases lt_trichotomy a.partTs b.partTs with hlt | heq | hgt
    · exact Or.inl (Or.inl hlt)
    · rcases le_total a.partition b.partition with hle | hle
      · exact Or.inl (Or.inr ⟨heq, hle⟩)
      · exact Or.inr (Or.inr ⟨heq.symm, hle⟩)
    · exact Or.inr (Or.inl hgt)

instance : IsTrans Leaf (fun a b => a.before b) where
  trans a b c := by
    simp only [Leaf.before, decide_eq_true_eq]
    rintro (hab | ⟨hab, hab'⟩) (hbc | ⟨hbc, hbc'⟩)
    · exact Or.inl (hab.trans hbc)
    · exact Or.inl (hbc ▸ hab)
    · exact Or.inl (hab ▸ hbc)
    · exact Or.inr ⟨hab.trans hbc, hab'.trans hbc'⟩

theorem before_partTs {a b : Leaf} (h : a.before b = true) : a.partTs ≤ b.partTs := by
  simp only [Leaf.before, decide_eq_true_eq] at h
  exact h.elim le_of_lt fun h => h.1.le

/-- The class of a row that does not block. -/
def EnumRow.classOf (spec : PartitionSpec) (cutoff floorSnap : ℤ) (row : EnumRow) : FileClass :=
  if row.partitionId = some spec.partitionId then
    (row.instant spec).elim .rot fun ts =>
      if cutoff ≤ ts then .atCutoff
      else if floorSnap < row.beginSnapshot then .floored
      else .leafMember
  else .oldSpecAtCutoff

/-- A row falls in its class, and in no other. -/
theorem falls_iff {listing : Listing} (hblocking : row.isBlocking spec cutoff = false)
    (hmember : (∃ leaf ∈ listing.leaves, ∃ f ∈ leaf.files, f.dataFileId = row.dataFileId) ↔
      row.isMember spec cutoff floorSnap = true) (k : FileClass) :
    Falls spec cutoff floorSnap listing row k ↔ k = row.classOf spec cutoff floorSnap := by
  have hnot : ¬ (row.partitionId ≠ some spec.partitionId ∧ ¬ ∃ ts ≥ cutoff, row.Composes spec ts) := by
    rw [← isBlocking_iff, hblocking]
    exact Bool.false_ne_true
  rw [isMember_iff] at hmember
  unfold EnumRow.classOf
  by_cases hlive : row.partitionId = some spec.partitionId
  · rw [if_pos hlive]
    cases hts : row.instant spec with
    | none =>
        have hnone : ∀ ts, ¬ row.Composes spec ts := fun ts h => by
          rw [← instant_eq_some, hts] at h
          cases h
        cases k <;> simp [Falls, hmember, hlive, hnone]
    | some ts =>
        have hsome : ∀ ts', row.Composes spec ts' ↔ ts = ts' := fun ts' => by
          rw [← instant_eq_some, hts, Option.some_inj]
        simp only [Option.elim_some]
        split_ifs with hcut hfloor
        · cases k <;> simp [Falls, hmember, hlive, hsome, hcut, not_lt.2 hcut]
        · cases k <;> simp [Falls, hmember, hlive, hsome, hcut, not_le.1 hcut, hfloor]
        · cases k <;> simp [Falls, hmember, hlive, hsome, hcut, not_le.1 hcut, hfloor, not_lt.1 hfloor]
  · have hcut : ∃ ts ≥ cutoff, row.Composes spec ts := by
      by_contra h
      exact hnot ⟨hlive, h⟩
    rw [if_neg hlive]
    cases k <;> simp [Falls, hmember, hlive, hcut]

theorem listingRight_of_ok {listing : Listing} (hnodup : (rows.map EnumRow.dataFileId).Nodup)
    (h : classifyEnumeration spec cutoff floorSnap maxFiles maxRot rows = .ok listing) :
    ListingRight spec cutoff floorSnap maxFiles rows listing := by
  have hok := h
  unfold classifyEnumeration at hok
  obtain ⟨st, hst, hrest⟩ := bind_eq_ok.1 hok
  have hbuckets := classifyRows_bucketed hst
  obtain ⟨hrot, hsamples, hfloored, hblocking⟩ := classifyRows_counted hst
  split_ifs at hrest with hold hrotten
  obtain rfl := Except.ok.inj hrest
  have hexactly : ((((st.buckets.map Prod.snd).insertionSort fun a b => a.before b).map
      (Leaf.mark maxFiles)).flatMap Leaf.files).Perm
        ((rows.filter (EnumRow.isMember spec cutoff floorSnap)).map EnumRow.leafFile) := by
    have hall : ((rows.filterMap (EnumRow.candidate spec cutoff floorSnap)).map fun r =>
        r.1.leafFile) = (rows.filter (EnumRow.isMember spec cutoff floorSnap)).map EnumRow.leafFile := by
      simpa using candidates_files (fun _ => true) rows
    rw [List.flatMap_map, ← hall]
    have hsorted := (List.perm_insertionSort (fun a b => a.before b = true)
      (st.buckets.map Prod.snd)).flatMap_right Leaf.files
    rw [List.flatMap_map, hbuckets] at hsorted
    rw [hbuckets]
    exact hsorted.trans (leafBuckets_files _)
  have hnone : ∀ row ∈ rows, row.isBlocking spec cutoff = false := by
    have hempty : st.oldSpecBlocking = [] := by simpa using hold
    rw [hempty, List.length_nil] at hblocking
    have hnil := List.length_eq_zero_iff.1 hblocking.symm
    intro row hrow
    simpa using List.filter_eq_nil_iff.1 hnil row hrow
  have hmember : ∀ row ∈ rows, (∃ leaf ∈ ((st.buckets.map Prod.snd).insertionSort fun a b =>
      a.before b).map (Leaf.mark maxFiles), ∃ f ∈ leaf.files, f.dataFileId = row.dataFileId) ↔
        row.isMember spec cutoff floorSnap = true := by
    intro row hrow
    constructor
    · rintro ⟨leaf, hleaf, f, hf, hid⟩
      obtain ⟨row', hrow', rfl⟩ := List.mem_map.1
        (hexactly.mem_iff.1 (List.mem_flatMap.2 ⟨leaf, hleaf, hf⟩))
      obtain ⟨hrows', hmember'⟩ := List.mem_filter.1 hrow'
      rwa [← List.inj_on_of_nodup_map hnodup hrows' hrow hid]
    · intro hrowMember
      obtain ⟨leaf, hleaf, hf⟩ := List.mem_flatMap.1 (hexactly.mem_iff.2
        (List.mem_map.2 ⟨row, List.mem_filter.2 ⟨hrow, hrowMember⟩, rfl⟩))
      exact ⟨leaf, hleaf, _, hf, rfl⟩
  exact {
    classified := fun row hrow => ⟨row.classOf spec cutoff floorSnap,
      (falls_iff (hnone row hrow) (hmember row hrow) _).2 rfl,
      fun k hk => (falls_iff (hnone row hrow) (hmember row hrow) k).1 hk⟩
    rotFiles := hrot
    rotSamples := hsamples
    flooredFiles := hfloored
    exactly := hexactly
    once := by
      refine (hexactly.map LeafFile.dataFileId).nodup_iff.2 ?_
      rw [List.map_map]
      exact (List.filter_sublist.map EnumRow.dataFileId).nodup hnodup
    own := fun leaf hleaf => leaf_own h hleaf
    oldestFirst := by
      have hsorted : ((st.buckets.map Prod.snd).insertionSort fun a b => a.before b).Pairwise
          fun a b => a.before b = true := List.pairwise_insertionSort _ _
      exact List.pairwise_map.2 (hsorted.imp fun hbefore => before_partTs hbefore)
    oversized := fun leaf hleaf => by
      obtain ⟨b, _, rfl⟩ := List.mem_map.1 hleaf
      exact decide_eq_true_iff }

/-- An abort for one of its two reasons. -/
theorem classifies_of_error {result : Except PlanAbort Listing} {e : PlanAbort}
    (hresult : result = .error e) (hdrop : e.isDropAbort = true)
    (hwhy : (∃ row ∈ rows, row.partitionId ≠ some spec.partitionId ∧
        ¬ ∃ ts ≥ cutoff, row.Composes spec ts) ∨
      maxRot < (rows.filter (EnumRow.isRot spec)).length) :
    Classifies spec cutoff floorSnap maxFiles maxRot rows result where
  raises e' he' := by
    rw [hresult] at he'
    rwa [← Except.error.inj he']
  aborts := ⟨fun _ => hwhy, fun _ => ⟨e, hresult, hdrop⟩⟩
  listing l hl := by
    rw [hresult] at hl
    cases hl

/-- **The classification of an enumeration.** For every list of rows with distinct file ids, every
    spec, cutoff, floor and bounds, the classification does what it is for exactly when no sane row
    makes `_compose_part_ts` raise. -/
theorem classifyEnumeration_classifies_iff (hnodup : (rows.map EnumRow.dataFileId).Nodup) :
    Classifies spec cutoff floorSnap maxFiles maxRot rows
        (classifyEnumeration spec cutoff floorSnap maxFiles maxRot rows) ↔
      ∀ row ∈ rows, ¬ (row.sane spec = true ∧ Raises spec row.column) := by
  have hloop : (∃ st', rows.foldlM (classifyRow spec cutoff floorSnap) ⟨0, [], 0, [], []⟩ = .ok st') ↔
      ∀ row ∈ rows, ¬ (row.sane spec = true ∧ Raises spec row.column) := classifyRows_ok_iff _
  cases hst : rows.foldlM (classifyRow spec cutoff floorSnap) ⟨0, [], 0, [], []⟩ with
  | error e =>
      have hresult : classifyEnumeration spec cutoff floorSnap maxFiles maxRot rows = .error e := by
        unfold classifyEnumeration
        rw [hst]
        rfl
      rw [hst] at hloop
      constructor
      · intro h
        have hdrop := h.raises e hresult
        rw [classifyRows_error hst] at hdrop
        cases hdrop
      · intro h
        obtain ⟨st', hst'⟩ := hloop.2 h
        cases hst'
  | ok st =>
      refine ⟨fun _ => hloop.1 ⟨st, hst⟩, fun _ => ?_⟩
      obtain ⟨hrot, _, _, hblocking⟩ := classifyRows_counted hst
      have hold : (!st.oldSpecBlocking.isEmpty) = true ↔ ∃ row ∈ rows,
          row.partitionId ≠ some spec.partitionId ∧ ¬ ∃ ts ≥ cutoff, row.Composes spec ts := by
        simp only [← isBlocking_iff]
        rw [Bool.not_eq_true', List.isEmpty_eq_false_iff, ← List.length_pos_iff, hblocking,
          List.length_pos_iff, ne_eq, List.filter_eq_nil_iff]
        push Not
        rfl
      by_cases hblocks : (!st.oldSpecBlocking.isEmpty) = true
      · have hresult : classifyEnumeration spec cutoff floorSnap maxFiles maxRot rows
            = .error (.oldSpec st.oldSpecBlocking.length (st.oldSpecBlocking.take 3)) := by
          unfold classifyEnumeration
          rw [hst]
          exact if_pos hblocks
        exact classifies_of_error hresult rfl (Or.inl (hold.1 hblocks))
      by_cases hrotten : maxRot < st.rot
      · have hresult : classifyEnumeration spec cutoff floorSnap maxFiles maxRot rows
            = .error (.rot st.rot st.rotSamples) := by
          unfold classifyEnumeration
          rw [hst]
          exact (if_neg hblocks).trans (if_pos hrotten)
        exact classifies_of_error hresult rfl (Or.inr (hrot ▸ hrotten))
      · have hresult : ∃ listing,
            classifyEnumeration spec cutoff floorSnap maxFiles maxRot rows = .ok listing := by
          unfold classifyEnumeration
          rw [hst]
          exact ⟨_, (if_neg hblocks).trans (if_neg hrotten)⟩
        obtain ⟨listing, hlisting⟩ := hresult
        rw [hrot] at hrotten
        rw [hold] at hblocks
        exact {
          raises := fun e he => by
            rw [hlisting] at he
            cases he
          aborts := by
            constructor
            · rintro ⟨e, he, _⟩
              rw [hlisting] at he
              cases he
            · exact fun hwhy => absurd hwhy (not_or.2 ⟨hblocks, hrotten⟩)
          listing := fun l hl => listingRight_of_ok hnodup hl }

/-! ## A year that is too large -/

/-- A live file of August 1st of a year. -/
def yearRow (year : String) : EnumRow where
  dataFileId := 9
  column := fun index => [some "2", some year, some "8", some "1"].getD index none
  fpvRows := 4
  fpvKeys := 4
  recordCount := some 4
  fileSizeBytes := some 40
  beginSnapshot := 1
  partitionId := some 5

/-- The keys of such files. -/
def yearSpec : PartitionSpec :=
  ⟨5, [⟨0, 19, "identity", some "team_id"⟩, ⟨1, 20, "year", some "timestamp"⟩,
    ⟨2, 20, "month", some "timestamp"⟩, ⟨3, 20, "day", some "timestamp"⟩]⟩

theorem year2026_classifies_iff :
    Classifies yearSpec 1788220800000000 10 10000 0 [yearRow "2026"]
        (classifyEnumeration yearSpec 1788220800000000 10 10000 0 [yearRow "2026"]) ↔
      ∀ row ∈ [yearRow "2026"], ¬ (row.sane yearSpec = true ∧ Raises yearSpec row.column) :=
  classifyEnumeration_classifies_iff (by decide)

/-- The `OverflowError` of `datetime()` ends the listing, before anything is reported as rot. -/
theorem year3000000000_raises :
    classifyEnumeration yearSpec 1788220800000000 10 10000 0 [yearRow "3000000000"]
        = .error .overflow ∧
      ¬ Classifies yearSpec 1788220800000000 10 10000 0 [yearRow "3000000000"]
        (classifyEnumeration yearSpec 1788220800000000 10 10000 0 [yearRow "3000000000"]) := by
  have hresult : classifyEnumeration yearSpec 1788220800000000 10 10000 0 [yearRow "3000000000"]
      = .error .overflow := by decide +kernel
  refine ⟨hresult, fun h => ?_⟩
  have hdrop := h.raises _ hresult
  cases hdrop

end Millpond.Maintenance
