import Millpond.Maintenance.DropPartitions
import Millpond.Lib.Outcomes
import Mathlib.Data.String.Basic

set_option autoImplicit false

/-! # Partition specs and leaf tuples

The live partition spec of a table, the tuple that names a leaf of it, and the instant the leaf's
time keys compose to. -/

namespace Millpond.Maintenance

/-- What stops the planner or the executor: a `_DropAbort` by what it reports, an `OverflowError` of
    `datetime()`, or a `KeyError`. -/
inductive PlanAbort where
  | noLiveSpec
  | liveSpecs (n : ℕ)
  | keyIndexes (indexes : List ℕ)
  | transform (name : String) (index : ℕ)
  | unnamedIdentity (index : ℕ)
  | noTimeTransform (name : String)
  | ambiguousAddress (name : String)
  | unknownKey (name : String) (known : List String)
  | valueType (name : String)
  | timeValue (name value : String)
  | identityValue (name value : String)
  | missingKeys (names : List String)
  | unageable (n : ℕ) (ids : List ℕ)
  | oldSpec (n : ℕ) (samples : List (ℕ × Option ℤ))
  | rot (n : ℕ) (samples : List ℕ)
  | overflow
  | keyError
deriving DecidableEq, Repr

/-! ## The spec -/

/-- `_TIME_TRANSFORMS`. -/
def timeTransforms : List String := ["year", "month", "day", "hour"]

/-- `_SUPPORTED_TRANSFORMS`. -/
def supportedTransforms : List String := "identity" :: timeTransforms

/-- `_PartitionKey`. -/
structure PartitionKey where
  index : ℕ
  columnId : ℕ
  transform : String
  columnName : Option String
deriving DecidableEq, Repr

/-- `_PartitionSpec`. -/
structure PartitionSpec where
  partitionId : ℕ
  keys : List PartitionKey
deriving DecidableEq, Repr

/-- `_PartitionSpec.address`; `str(None)` is a name too. -/
def PartitionKey.address (k : PartitionKey) : String :=
  if k.transform = "identity" then k.columnName.getD "None" else k.transform

/-- The two checks of one key. -/
def checkKey (k : PartitionKey) : Except PlanAbort PUnit :=
  if k.transform ∉ supportedTransforms then .error (.transform k.transform k.index)
  else if k.transform = "identity" ∧ k.columnName.all (· = "") then .error (.unnamedIdentity k.index)
  else .ok ⟨⟩

/-- No address twice; `seen` are the ones before. -/
def checkAddresses : List String → List PartitionKey → Except PlanAbort PUnit
  | _, [] => .ok ⟨⟩
  | seen, k :: rest =>
      if k.address ∈ seen then .error (.ambiguousAddress k.address)
      else checkAddresses (k.address :: seen) rest

/-- `set(indexes) == set(range(n))`. -/
def isRange (indexes : List ℕ) (n : ℕ) : Bool :=
  indexes.all (fun i => decide (i < n)) && (List.range n).all fun i => indexes.any (· == i)

/-- The one row of `ducklake_partition_info`. -/
def livePartitionId : List ℕ → Except PlanAbort ℕ
  | [] => .error .noLiveSpec
  | [partitionId] => .ok partitionId
  | info => .error (.liveSpecs info.length)

/-- `_resolve_live_spec`, from the rows of its two queries. -/
def resolveLiveSpec (info : List ℕ) (cols : List PartitionKey) : Except PlanAbort PartitionSpec := do
  let partitionId ← livePartitionId info
  if !isRange (cols.map PartitionKey.index) cols.length then
    throw (.keyIndexes (cols.map PartitionKey.index))
  else do
    cols.forM checkKey
    ["year", "month", "day"].forM fun required =>
      if required ∈ cols.map PartitionKey.transform then .ok ⟨⟩ else .error (.noTimeTransform required)
    checkAddresses [] cols
    pure ⟨partitionId, cols⟩

/-! ## Tuples -/

/-- A value of a tuple, as JSON or a command line gives it. -/
inductive TupleValue where
  | str (s : String)
  | int (i : ℤ)
  | other
deriving DecidableEq, Repr

/-- `{key_index: value}`. -/
abbrev TupleMap := ℕ → Option String

/-- White space, to `str.strip` and `\\s`. -/
def isSpace (c : Char) : Bool :=
  [0x9, 0xa, 0xb, 0xc, 0xd, 0x1c, 0x1d, 0x1e, 0x1f, 0x20, 0x85, 0xa0, 0x1680, 0x2000, 0x2001, 0x2002,
    0x2003, 0x2004, 0x2005, 0x2006, 0x2007, 0x2008, 0x2009, 0x200a, 0x2028, 0x2029, 0x202f, 0x205f,
    0x3000].any (· == c.toNat)

/-- `re.fullmatch(r"-?[0-9]{1,9}", value)`. -/
def isTimeValue (value : String) : Bool :=
  let digits := if value.toList.head? = some '-' then value.toList.tail else value.toList
  digits.all Char.isDigit && decide (1 ≤ digits.length) && decide (digits.length ≤ 9)

/-- `not (not value or re.search(r"[,\\s=]", value))`. -/
def isIdentityValue (value : String) : Bool :=
  !value.toList.isEmpty && value.toList.all fun c => c != ',' && !isSpace c && c != '='

/-- A value `_tuple_from_values` takes for the key. -/
def PartitionKey.takes (k : PartitionKey) (value : String) : Bool :=
  if k.transform ∈ timeTransforms then isTimeValue value else isIdentityValue value

/-- The checks of one item of the mapping. -/
def checkValue (k : PartitionKey) (name value : String) : Except PlanAbort String :=
  if k.takes value then .ok value
  else if k.transform ∈ timeTransforms then .error (.timeValue name value)
  else .error (.identityValue name value)

/-- `by_name`: a later key of the same address replaces an earlier one. -/
def PartitionSpec.byName (spec : PartitionSpec) (name : String) : Option PartitionKey :=
  spec.keys.reverse.find? fun k => k.address == name

/-- A real int is read as its text. -/
def tupleText (name : String) : TupleValue → Except PlanAbort String
  | .str s => .ok s
  | .int i => .ok (toString i)
  | .other => .error (.valueType name)

/-- One item of `_tuple_from_values`. -/
def tupleItem (spec : PartitionSpec) (out : TupleMap) (item : String × TupleValue) :
    Except PlanAbort TupleMap :=
  match spec.byName item.1 with
  | none => .error (.unknownKey item.1 (spec.keys.map PartitionKey.address))
  | some k => do
      let text ← tupleText item.1 item.2
      let value ← checkValue k item.1 text
      pure (Function.update out k.index (some value))

/-- `_tuple_from_values`. -/
def tupleFromValues (spec : PartitionSpec) (items : List (String × TupleValue)) :
    Except PlanAbort TupleMap := do
  let out ← items.foldlM (tupleItem spec) (fun _ => none)
  let missing := spec.keys.filter fun k => (out k.index).isNone
  if missing.isEmpty then pure out else throw (.missingKeys (missing.map PartitionKey.address))

/-- `_canonical_leaf_str`. -/
def canonicalLeafStr (spec : PartitionSpec) (values : ℕ → String) : String :=
  ",".intercalate (spec.keys.map fun k => k.address ++ "=" ++ values k.index)

/-! ## The instant of a leaf -/

/-- The zeros of Unicode's decimal digits. -/
def decimalZeros : List ℕ :=
  [0x30, 0x660, 0x6f0, 0x7c0, 0x966, 0x9e6, 0xa66, 0xae6, 0xb66, 0xbe6, 0xc66, 0xce6, 0xd66, 0xde6,
    0xe50, 0xed0, 0xf20, 0x1040, 0x1090, 0x17e0, 0x1810, 0x1946, 0x19d0, 0x1a80, 0x1a90, 0x1b50,
    0x1bb0, 0x1c40, 0x1c50, 0xa620, 0xa8d0, 0xa900, 0xa9d0, 0xa9f0, 0xaa50, 0xabf0, 0xff10, 0x104a0,
    0x10d30, 0x11066, 0x110f0, 0x11136, 0x111d0, 0x112f0, 0x11450, 0x114d0, 0x11650, 0x116c0, 0x11730,
    0x118e0, 0x11950, 0x11c50, 0x11d50, 0x11da0, 0x11f50, 0x16a60, 0x16ac0, 0x16b50, 0x1d7ce, 0x1d7d8,
    0x1d7e2, 0x1d7ec, 0x1d7f6, 0x1e140, 0x1e2f0, 0x1e4f0, 0x1e950, 0x1fbf0]

def digitOf (c : Char) : Option ℕ :=
  (decimalZeros.find? fun z => decide (z ≤ c.toNat ∧ c.toNat < z + 10)).map fun z => c.toNat - z

/-- Digits with single underscores between them. -/
def readDigits : (afterDigit : Bool) → (acc : ℕ) → List Char → Option ℕ
  | afterDigit, acc, [] => if afterDigit then some acc else none
  | afterDigit, acc, c :: rest =>
      match digitOf c with
      | some d => readDigits true (acc * 10 + d) rest
      | none => if c == '_' && afterDigit then readDigits false acc rest else none

/-- White space, to `int()`: the separators of ASCII are none. -/
def isIntSpace (c : Char) : Bool := isSpace c && !decide (0x1c ≤ c.toNat ∧ c.toNat ≤ 0x1f)

/-- `int(s)`, `none` for its `ValueError`: white space around, a sign, and at most 4300 digits. -/
def pyInt (s : String) : Option ℤ :=
  let text := ((s.toList.dropWhile isIntSpace).reverse.dropWhile isIntSpace).reverse
  let digits := if text.head? = some '-' ∨ text.head? = some '+' then text.tail else text
  if 4300 < (digits.filter fun c => (digitOf c).isSome).length then none
  else (readDigits false 0 digits).map fun n => if text.head? = some '-' then -n else n

def isLeap (year : ℤ) : Bool := year % 4 = 0 ∧ (year % 100 ≠ 0 ∨ year % 400 = 0)

def daysInMonth (year month : ℤ) : ℤ :=
  if month = 2 then if isLeap year then 29 else 28
  else if month = 4 ∨ month = 6 ∨ month = 9 ∨ month = 11 then 30
  else 31

/-- `date.toordinal`. -/
def toOrdinal (year month day : ℤ) : ℤ :=
  (year - 1) * 365 + (year - 1) / 4 - (year - 1) / 100 + (year - 1) / 400 +
    ((List.range (month - 1).toNat).map fun (m : ℕ) => daysInMonth year (m + 1)).sum + day

/-- `datetime(year, month, day, hour, tzinfo=UTC)` in microseconds, `none` for its `ValueError`. An
    argument that is no C `int` is an `OverflowError`. -/
def datetimeUtc (year month day hour : ℤ) : Except PlanAbort (Option ℤ) :=
  if [year, month, day, hour].any fun v => decide (v < -2147483648 ∨ 2147483647 < v) then
    .error .overflow
  else if 1 ≤ year ∧ year ≤ 9999 ∧ 1 ≤ month ∧ month ≤ 12 ∧ 1 ≤ day ∧ day ≤ daysInMonth year month ∧
      0 ≤ hour ∧ hour ≤ 23 then
    .ok (some (((toOrdinal year month day - 719163) * 24 + hour) * 3600000000))
  else .ok none

/-- The value under a time transform: no such key, or a key whose value is no integer. -/
def timeField (spec : PartitionSpec) (values : TupleMap) (transform : String) : Option (Option ℤ) :=
  (spec.keys.find? fun k => k.transform == transform).map fun k => (values k.index).bind pyInt

/-- `_compose_part_ts`. -/
def composePartTs (spec : PartitionSpec) (values : TupleMap) : Except PlanAbort (Option ℤ) :=
  let field := timeField spec values
  if timeTransforms.any fun t => field t == some none then .ok none
  else
    match (field "year").join, (field "month").join, (field "day").join with
    | some year, some month, some day =>
        datetimeUtc year month day ((field "hour").join.getD 0)
    | _, _, _ => .error .keyError

/-- Only the values under the spec's indexes matter. -/
theorem composePartTs_congr {spec : PartitionSpec} {values values' : TupleMap}
    (h : ∀ k ∈ spec.keys, values k.index = values' k.index) :
    composePartTs spec values = composePartTs spec values' := by
  have hfield : timeField spec values = timeField spec values' := by
    funext t
    unfold timeField
    cases hfind : spec.keys.find? fun k => k.transform == t with
    | none => rfl
    | some k =>
        rw [Option.map_some, Option.map_some, h k (List.mem_of_find?_eq_some hfind)]
  unfold composePartTs
  rw [hfield]

/-! ## What a resolved spec guarantees -/

/-- The keys have distinct indexes and distinct addresses. -/
structure PartitionSpec.Live (spec : PartitionSpec) : Prop where
  indexes : (spec.keys.map PartitionKey.index).Nodup
  addresses : (spec.keys.map PartitionKey.address).Nodup

theorem checkAddresses_nodup {seen : List String} {keys : List PartitionKey}
    (h : checkAddresses seen keys = .ok ⟨⟩) :
    (keys.map PartitionKey.address).Nodup ∧ ∀ k ∈ keys, k.address ∉ seen := by
  induction keys generalizing seen with
  | nil => simp
  | cons k rest ih =>
      unfold checkAddresses at h
      split_ifs at h with hseen
      obtain ⟨hnodup, hfresh⟩ := ih h
      refine ⟨List.nodup_cons.2 ⟨fun hmem => ?_, hnodup⟩, fun k' hk' => ?_⟩
      · obtain ⟨k', hk', heq⟩ := List.mem_map.1 hmem
        exact hfresh k' hk' (heq ▸ List.mem_cons_self)
      · rcases List.mem_cons.1 hk' with rfl | hk'
        · exact hseen
        · exact fun hmem => hfresh k' hk' (List.mem_cons_of_mem _ hmem)

/-- As many indexes as the range is long, and all of the range: none is there twice. -/
theorem nodup_of_isRange {indexes : List ℕ} (h : isRange indexes indexes.length = true) :
    indexes.Nodup := by
  simp only [isRange, Bool.and_eq_true, List.all_eq_true, List.any_eq_true, beq_iff_eq,
    exists_eq_right] at h
  have hsub : (List.range indexes.length).Subperm indexes :=
    List.subperm_of_subset List.nodup_range fun i hi => h.2 i hi
  have hperm := hsub.perm_of_length_le (by rw [List.length_range])
  exact hperm.nodup_iff.1 List.nodup_range

theorem resolveLiveSpec_live {info : List ℕ} {cols : List PartitionKey} {spec : PartitionSpec}
    (h : resolveLiveSpec info cols = .ok spec) : spec.Live := by
  unfold resolveLiveSpec at h
  obtain ⟨partitionId, _, hrest⟩ := bind_eq_ok.1 h
  split_ifs at hrest with hindexes
  obtain ⟨_, _, htransforms⟩ := bind_eq_ok.1 hrest
  obtain ⟨_, _, hlast⟩ := bind_eq_ok.1 htransforms
  obtain ⟨_, haddresses, hspec⟩ := bind_eq_ok.1 hlast
  obtain rfl := Except.ok.inj hspec
  refine ⟨nodup_of_isRange ?_, (checkAddresses_nodup haddresses).1⟩
  rw [List.length_map]
  simpa using hindexes

/-! ## Reading a leaf back -/

variable {spec : PartitionSpec}

/-- The tuple `t` over the spec's indexes. -/
def PartitionSpec.tupleMap (spec : PartitionSpec) (t : ℕ → String) : TupleMap :=
  fun i => if ∃ k ∈ spec.keys, k.index = i then some (t i) else none

theorem tupleMap_key {k : PartitionKey} (hk : k ∈ spec.keys) (t : ℕ → String) :
    spec.tupleMap t k.index = some (t k.index) := if_pos ⟨k, hk, rfl⟩

theorem PartitionSpec.Live.byName (h : spec.Live) {k : PartitionKey} (hk : k ∈ spec.keys) :
    spec.byName k.address = some k := by
  have hsome : (spec.byName k.address).isSome := by
    rw [PartitionSpec.byName, List.find?_isSome]
    exact ⟨k, List.mem_reverse.2 hk, beq_self_eq_true _⟩
  obtain ⟨k', hk'⟩ := Option.isSome_iff_exists.1 hsome
  have haddress : k'.address = k.address := by simpa using List.find?_some hk'
  have hmem : k' ∈ spec.keys := List.mem_reverse.1 (List.mem_of_find?_eq_some hk')
  rw [hk', List.inj_on_of_nodup_map h.addresses hmem hk haddress]

theorem checkValue_eq_ok {k : PartitionKey} {name value out : String} :
    checkValue k name value = .ok out ↔ k.takes value = true ∧ value = out := by
  unfold checkValue
  split_ifs with htakes htime <;> simp [htakes]

theorem tupleItem_eq_ok (h : spec.Live) {k : PartitionKey} (hk : k ∈ spec.keys) {value : String}
    {out out' : TupleMap} :
    tupleItem spec out (k.address, .str value) = .ok out' ↔
      k.takes value = true ∧ out' = Function.update out k.index (some value) := by
  unfold tupleItem
  rw [h.byName hk]
  show (checkValue k k.address value >>= fun v => pure (Function.update out k.index (some v)))
      = .ok out' ↔ _
  rw [bind_eq_ok]
  constructor
  · rintro ⟨v, hv, hout⟩
    obtain ⟨htakes, rfl⟩ := checkValue_eq_ok.1 hv
    exact ⟨htakes, (Except.ok.inj hout).symm⟩
  · rintro ⟨htakes, rfl⟩
    exact ⟨value, checkValue_eq_ok.2 ⟨htakes, rfl⟩, rfl⟩

/-- The loop over the items of some of the keys. -/
theorem tupleItems_eq_ok (h : spec.Live) (t : ℕ → String) {keys : List PartitionKey}
    (hkeys : ∀ k ∈ keys, k ∈ spec.keys) :
    ∀ {out out' : TupleMap},
      (keys.map fun k => (k.address, TupleValue.str (t k.index))).foldlM (tupleItem spec) out
          = .ok out' ↔
        (∀ k ∈ keys, k.takes (t k.index) = true) ∧
          out' = keys.foldl (fun (o : TupleMap) k => Function.update o k.index (some (t k.index))) out := by
  induction keys with
  | nil =>
      intro out out'
      constructor
      · exact fun hok => ⟨by simp, (Except.ok.inj hok).symm⟩
      · rintro ⟨-, rfl⟩
        rfl
  | cons k rest ih =>
      intro out out'
      have hrest : ∀ k' ∈ rest, k' ∈ spec.keys := fun k' hk' => hkeys k' (List.mem_cons_of_mem _ hk')
      rw [List.map_cons, List.foldlM_cons, bind_eq_ok, List.foldl_cons, List.forall_mem_cons]
      constructor
      · rintro ⟨o, ho, hok⟩
        obtain ⟨htakes, rfl⟩ := (tupleItem_eq_ok h (hkeys k List.mem_cons_self)).1 ho
        obtain ⟨hall, hout⟩ := (ih hrest).1 hok
        exact ⟨⟨htakes, hall⟩, hout⟩
      · rintro ⟨⟨htakes, hall⟩, hout⟩
        exact ⟨_, (tupleItem_eq_ok h (hkeys k List.mem_cons_self)).2 ⟨htakes, rfl⟩,
          (ih hrest).2 ⟨hall, hout⟩⟩

/-- What the updates of some keys leave under an index. -/
theorem foldl_update_apply (t : ℕ → String) (keys : List PartitionKey) :
    ∀ (out : TupleMap) (i : ℕ),
      keys.foldl (fun (o : TupleMap) k => Function.update o k.index (some (t k.index))) out i
        = if ∃ k ∈ keys, k.index = i then some (t i) else out i := by
  induction keys with
  | nil => simp
  | cons k rest ih =>
      intro out i
      rw [List.foldl_cons, ih]
      by_cases hrest : ∃ k' ∈ rest, k'.index = i
      · obtain ⟨k', hk', hi⟩ := hrest
        rw [if_pos ⟨k', hk', hi⟩, if_pos ⟨k', List.mem_cons_of_mem _ hk', hi⟩]
      · rw [if_neg hrest]
        by_cases hk : k.index = i
        · subst hk
          rw [if_pos ⟨k, List.mem_cons_self, rfl⟩, Function.update_self]
        · rw [Function.update_of_ne (Ne.symm hk), if_neg]
          rintro ⟨k', hk', hi⟩
          rcases List.mem_cons.1 hk' with rfl | hk'
          · exact hk hi
          · exact hrest ⟨k', hk', hi⟩

/-- A leaf of the live spec is read back exactly when every one of its values is taken. -/
theorem tupleFromValues_eq_ok (h : spec.Live) (t : ℕ → String) {out : TupleMap} :
    tupleFromValues spec (spec.keys.map fun k => (k.address, .str (t k.index))) = .ok out ↔
      (∀ k ∈ spec.keys, k.takes (t k.index) = true) ∧ out = spec.tupleMap t := by
  have hmap : spec.keys.foldl
      (fun (o : TupleMap) k => Function.update o k.index (some (t k.index))) (fun _ => none)
        = spec.tupleMap t := by
    funext i
    rw [foldl_update_apply]
    rfl
  have hmissing : (spec.keys.filter fun k => (spec.tupleMap t k.index).isNone) = [] :=
    List.filter_eq_nil_iff.2 fun k hk => by simp [tupleMap_key hk]
  unfold tupleFromValues
  rw [bind_eq_ok]
  constructor
  · rintro ⟨o, ho, hout⟩
    obtain ⟨htakes, rfl⟩ := (tupleItems_eq_ok h t fun _ hk => hk).1 ho
    rw [hmap] at hout
    simp only [hmissing, List.isEmpty_nil, if_true] at hout
    exact ⟨htakes, (Except.ok.inj hout).symm⟩
  · rintro ⟨htakes, rfl⟩
    refine ⟨spec.tupleMap t, (tupleItems_eq_ok h t fun _ hk => hk).2 ⟨htakes, hmap.symm⟩, ?_⟩
    simp only [hmissing, List.isEmpty_nil, if_true]
    rfl

end Millpond.Maintenance
