import Millpond.Arrow.Refusals
import Mathlib.Data.Rat.Defs

set_option autoImplicit false

/-! # The order of the records

The type of a column follows its first value. Among integers, floats and bools it matters which of
them that is: integers are taken into a column of floats, and a float among integers makes them
strings. -/

namespace Millpond.Arrow

open ArrowConverter (Value Record ColType keysOf column sampleType)

variable {F : Type} (libs : Libs F)

/-! ## The property -/

/-- Both calls return nothing, both raise, or both return the same columns, and no rows at all or the
    same row for each object. -/
def SameTable (messages messages' : List Bytes) : Prop :=
  match convert libs messages, convert libs messages' with
  | .none, .none => True
  | .raised, .raised => True
  | .table table, .table table' => table.fields.Perm table'.fields ∧
      (table.rows = [] ∧ table'.rows = [] ∨ ∃ rowOf : Dict F → Row F,
        table.rows = (objects libs messages).map rowOf ∧
        table'.rows = (objects libs messages').map rowOf)
  | _, _ => False

/-- Something in the batch makes `convert` raise. -/
def Raises (messages : List Bytes) : Prop :=
  NestsTooDeep libs messages ∨ ∃ key, Refused libs (valuesOf libs messages key)

/-- A key without strings starts with a float in both batches or in none. -/
def SameStart (messages messages' : List Bytes) : Prop :=
  ∀ key, .str ∉ kinds (valuesOf libs messages key) →
    ((kinds (valuesOf libs messages key)).head? = some .float ↔
      (kinds (valuesOf libs messages' key)).head? = some .float)

/-! ## A type by its kinds -/

/-- The type of a column that is not refused. -/
def typeOfKinds (ks : List Kind) : ColType :=
  if .str ∈ ks then .string
  else if ks.head? = some .float then .float64
  else if .float ∈ ks then .string
  else if .bool ∈ ks then if .int ∈ ks then .string else .bool
  else if .int ∈ ks then .int64
  else .string

variable {libs}

theorem typeOfKinds_of_mixed {ks : List Kind} {k k' : Kind} (hhead : ks.head? = some k)
    (hmem : k' ∈ ks) (hnot : k' ∉ k.takes) : typeOfKinds ks = .string := by
  have hk : k ∈ ks := List.mem_of_head? hhead
  unfold typeOfKinds
  cases k <;> cases k' <;> simp_all [Kind.takes]

theorem finalType_eq {values : List (Value F)} (h : ¬ Refused libs values) :
    finalType values = typeOfKinds (kinds values) := by
  cases hmixed : mixed values with
  | true =>
      obtain ⟨k, hhead, k', hmem, hnot⟩ := mixed_iff_kinds.1 hmixed
      rw [typeOfKinds_of_mixed hhead hmem hnot, finalType, if_pos hmixed]
  | false =>
      rw [finalType_of_not_mixed hmixed]
      cases hhead : (kinds values).head? with
      | none =>
          have hnil : kinds values = [] := List.head?_eq_none_iff.1 hhead
          have hfirst : values.find? (!·.isNull) = none := by
            rw [List.find?_eq_none]
            intro v hv
            have hkind := List.filterMap_eq_nil_iff.1 hnil v hv
            cases v with
            | null => simp [Value.isNull]
            | _ => cases hkind
          rw [sampleType, hfirst, hnil]
          rfl
      | some k =>
          obtain ⟨sample, hsample, -, hkind, htype⟩ := exists_of_head? hhead
          have htakes : ∀ k' ∈ kinds values, k' ∈ k.takes :=
            fun k' hk' => takes_of_not_mixed hmixed hhead hk'
          have hk : k ∈ kinds values := List.mem_of_head? hhead
          have hnot : ∀ k', k' ∉ k.takes → k' ∉ kinds values := fun k' hk' hmem => hk' (htakes k' hmem)
          rw [htype]
          unfold typeOfKinds
          cases sample with
          | null => cases hkind
          | bool b =>
              obtain rfl : Kind.bool = k := Option.some.inj hkind
              simp [hhead, hk, hnot, Kind.takes, Value.arrowType]
          | float f =>
              obtain rfl : Kind.float = k := Option.some.inj hkind
              simp [hhead, hnot, Kind.takes, Value.arrowType]
          | str s =>
              obtain rfl : Kind.str = k := Option.some.inj hkind
              simp [hk, Value.arrowType]
          | int n =>
              obtain rfl : Kind.int = k := Option.some.inj hkind
              have hnofloat := hnot .float (by decide)
              have hnostr := hnot .str (by decide)
              -- it is not refused, so there is no bool
              have hnobool : .bool ∉ kinds values :=
                fun hb => h (Or.inr (Or.inl ⟨hhead, hnofloat, hnostr, Or.inl hb⟩))
              simp [hhead, hk, hnofloat, hnostr, hnobool, Value.arrowType]

/-- A column of floats starts with one and has no strings. -/
theorem typeOfKinds_float_iff (ks : List Kind) :
    typeOfKinds ks = .float64 ↔ .str ∉ ks ∧ ks.head? = some .float := by
  unfold typeOfKinds
  by_cases hstr : .str ∈ ks
  · simp [hstr]
  · by_cases hhead : ks.head? = some .float
    · simp [hstr, hhead]
    · simp only [hstr, hhead, if_false, and_false, iff_false]
      split
      · exact fun h => by cases h
      · split
        · split <;> exact fun h => by cases h
        · split <;> exact fun h => by cases h

/-- A column of strings that is not mixed has nothing else. -/
theorem stringified_eq {values : List (Value F)} (h : mixed values = false)
    (hstring : sampleType values = .string) {v : Value F} (hv : v ∈ values) :
    v.stringified libs.backend = v := by
  cases hkind : kind v with
  | none =>
      cases v with
      | null => rfl
      | _ => cases hkind
  | some k' =>
      have hmem : k' ∈ kinds values := mem_kinds.2 ⟨v, hv, hkind⟩
      obtain ⟨k, hhead⟩ := Option.isSome_iff_exists.1 (List.isSome_head?.2 (List.ne_nil_of_mem hmem))
      obtain ⟨sample, -, -, hsample, htype⟩ := exists_of_head? hhead
      have htakes := takes_of_not_mixed h hhead hmem
      rw [hstring] at htype
      cases sample with
      | str s =>
          obtain rfl : Kind.str = k := Option.some.inj hsample
          obtain rfl : k' = .str := by simpa [Kind.takes] using htakes
          cases v with
          | str t => rfl
          | _ => cases hkind
      | _ => cases htype

/-- A cell follows its column's type. -/
theorem cellOf_eq {values : List (Value F)} {v : Value F} (hv : v ∈ values) :
    cellOf libs values v = toCell libs (finalType values)
      (if finalType values = .string then v.stringified libs.backend
        else floated libs (finalType values) v) := by
  cases hmixed : mixed values with
  | true =>
      have htype : finalType values = .string := by rw [finalType, if_pos hmixed]
      unfold cellOf patchedValue
      rw [htype, if_pos hmixed, if_pos rfl]
  | false =>
      rw [cellOf_of_not_mixed hmixed, finalType_of_not_mixed hmixed]
      by_cases hstring : sampleType values = .string
      · rw [if_pos hstring, stringified_eq hmixed hstring hv, hstring]
        rfl
      · rw [if_neg hstring]

/-! ## Permuted batches -/

variable {messages messages' : List Bytes}

theorem objects_perm (h : messages.Perm messages') :
    (objects libs messages).Perm (objects libs messages') := h.filterMap _

theorem plainRecords_perm {dicts dicts' : List (Dict F)} (h : dicts.Perm dicts') :
    (plainRecords dicts).Perm (plainRecords dicts') := h.map _

theorem column_perm {records records' : List (Record F)} (h : records.Perm records') (key : String) :
    (column key records).Perm (column key records') := h.flatten.filterMap _

theorem valuesOf_perm (h : messages.Perm messages') (key : String) :
    (valuesOf libs messages key).Perm (valuesOf libs messages' key) :=
  column_perm (plainRecords_perm (objects_perm h)) key

theorem keysOf_perm {records records' : List (Record F)} (h : records.Perm records') :
    (keysOf records).Perm (keysOf records') := by
  refine (List.perm_ext_iff_of_nodup (keysOf_nodup _) (keysOf_nodup _)).2 fun key => ?_
  rw [ArrowConverter.mem_keysOf, ArrowConverter.mem_keysOf]
  exact exists_congr fun v => (column_perm h key).mem_iff

/-- Kinds in another order give the same type if both lists start with a float or none does. -/
theorem typeOfKinds_perm {ks ks' : List Kind} (h : ks.Perm ks')
    (hstart : .str ∉ ks → (ks.head? = some .float ↔ ks'.head? = some .float)) :
    typeOfKinds ks = typeOfKinds ks' := by
  unfold typeOfKinds
  simp only [h.mem_iff]
  by_cases hstr : Kind.str ∈ ks'
  · simp [hstr]
  · have hstart := hstart (mt h.mem_iff.1 hstr)
    simp only [hstr, hstart]

theorem finalType_perm (h : messages.Perm messages') {key : String}
    (hgood : ¬ Refused libs (valuesOf libs messages key))
    (hgood' : ¬ Refused libs (valuesOf libs messages' key))
    (hstart : .str ∉ kinds (valuesOf libs messages key) →
      ((kinds (valuesOf libs messages key)).head? = some .float ↔
        (kinds (valuesOf libs messages' key)).head? = some .float)) :
    finalType (valuesOf libs messages key) = finalType (valuesOf libs messages' key) := by
  rw [finalType_eq hgood, finalType_eq hgood']
  exact typeOfKinds_perm ((valuesOf_perm h key).filterMap _) hstart

/-- With the same types, the cells are the same. -/
theorem cellOf_congr {values values' : List (Value F)} (h : values.Perm values')
    (htype : finalType values = finalType values') {v : Value F} (hv : v ∈ values) :
    cellOf libs values v = cellOf libs values' v := by
  rw [cellOf_eq hv, cellOf_eq (h.mem_iff.1 hv), htype]

theorem raises_iff : Raises libs messages ↔ convert libs messages = .raised := by
  constructor
  · exact convert_raised
  · intro hraised
    by_contra hnot
    unfold Raises at hnot
    rw [not_or, not_exists] at hnot
    by_cases hsome : objects libs messages = []
    · rw [convert_nil hsome] at hraised
      cases hraised
    · rw [convert_table hsome hnot.1 hnot.2] at hraised
      cases hraised

theorem not_raises_iff : ¬ Raises libs messages ↔
    ¬ NestsTooDeep libs messages ∧ ∀ key, ¬ Refused libs (valuesOf libs messages key) := by
  unfold Raises
  rw [not_or, not_exists]

theorem sameTable_of_raises (hraises : Raises libs messages) :
    SameTable libs messages messages' ↔ Raises libs messages' := by
  rw [raises_iff] at hraises
  rw [raises_iff]
  unfold SameTable
  rw [hraises]
  cases convert libs messages' <;> simp

/-- The columns of two tables agree when each key has one type in both. -/
theorem sameStart_of_fields (h : messages.Perm messages')
    (hgood : ∀ key, ¬ Refused libs (valuesOf libs messages key))
    (hgood' : ∀ key, ¬ Refused libs (valuesOf libs messages' key))
    (hfields : (tableFields (plainRecords (objects libs messages))).Perm
      (tableFields (plainRecords (objects libs messages')))) : SameStart libs messages messages' := by
  intro key hstr
  have hvalues : (valuesOf libs messages key).Perm (valuesOf libs messages' key) :=
    valuesOf_perm h key
  have hperm := hvalues.filterMap kind
  have hstr' : .str ∉ kinds (valuesOf libs messages' key) := mt hperm.mem_iff.2 hstr
  by_cases hkey : key ∈ keysOf (plainRecords (objects libs messages))
  · have hmem := hfields.mem_iff.1 (List.mem_map_of_mem (f := fun key =>
      (key, finalType (column key (plainRecords (objects libs messages))))) hkey)
    obtain ⟨key', -, heq⟩ := List.mem_map.1 hmem
    obtain ⟨rfl, htype⟩ := Prod.mk.inj heq
    have htype : finalType (valuesOf libs messages' key') = finalType (valuesOf libs messages key') :=
      htype
    -- equal types tell of equal starts, since without strings a float column starts with a float
    rw [finalType_eq (hgood _), finalType_eq (hgood' _)] at htype
    have hfloat := typeOfKinds_float_iff (kinds (valuesOf libs messages key'))
    have hfloat' := typeOfKinds_float_iff (kinds (valuesOf libs messages' key'))
    rw [← htype, hfloat'] at hfloat
    simpa [hstr, hstr'] using hfloat.symm
  · have hnil : valuesOf libs messages key = [] :=
      List.eq_nil_iff_forall_not_mem.2 fun v hv => hkey (ArrowConverter.mem_keysOf.2 ⟨v, hv⟩)
    have hnil' : valuesOf libs messages' key = [] :=
      List.nil_perm.1 (hnil ▸ valuesOf_perm h key)
    rw [hnil, hnil']

/-- Batches that start alike have the same columns and the same row for each record. -/
theorem tables_of_sameStart (h : messages.Perm messages')
    (hgood : ∀ key, ¬ Refused libs (valuesOf libs messages key))
    (hgood' : ∀ key, ¬ Refused libs (valuesOf libs messages' key))
    (hstart : SameStart libs messages messages') :
    (tableFields (plainRecords (objects libs messages))).Perm
        (tableFields (plainRecords (objects libs messages'))) ∧
      ∀ record ∈ plainRecords (objects libs messages'),
        convertedRow libs (plainRecords (objects libs messages')) record
          = convertedRow libs (plainRecords (objects libs messages)) record := by
  have htype : ∀ key, finalType (column key (plainRecords (objects libs messages)))
      = finalType (column key (plainRecords (objects libs messages'))) :=
    fun key => finalType_perm h (hgood key) (hgood' key) (hstart key)
  constructor
  · unfold tableFields
    simp only [htype]
    exact (keysOf_perm (plainRecords_perm (objects_perm h))).map _
  · intro record hrecord
    funext name
    unfold convertedRow
    cases hv : record.lookup name with
    | none => rfl
    | some v =>
        have hmem : v ∈ column name (plainRecords (objects libs messages')) :=
          mem_column.2 ⟨record, hrecord, mem_of_lookup_eq_some hv⟩
        rw [Option.bind_some, Option.bind_some, cellOf_congr
          (column_perm (plainRecords_perm (objects_perm h)) name).symm (htype name).symm hmem]

/-- **When the order of the records matters.** A batch and a permutation of it convert to the same
    table exactly if both raise, or neither does and every key without strings starts with a float in
    both or in none. -/
theorem sameTable_iff (libs : Libs F) {messages messages' : List Bytes}
    (h : messages.Perm messages') :
    SameTable libs messages messages' ↔
      (Raises libs messages ∧ Raises libs messages') ∨
      (¬ Raises libs messages ∧ ¬ Raises libs messages' ∧ SameStart libs messages messages') := by
  by_cases hraises : Raises libs messages
  · rw [sameTable_of_raises hraises]
    simp [hraises]
  by_cases hraises' : Raises libs messages'
  -- one order raises and the other does not
  · refine iff_of_false (fun hsame => ?_) (by simp [hraises, hraises'])
    rw [raises_iff] at hraises hraises'
    unfold SameTable at hsame
    rw [hraises'] at hsame
    cases hconvert : convert libs messages with
    | raised => exact hraises hconvert
    | _ =>
        rw [hconvert] at hsame
        exact hsame
  obtain ⟨hshallow, hgood⟩ := not_raises_iff.1 hraises
  obtain ⟨hshallow', hgood'⟩ := not_raises_iff.1 hraises'
  have hiff : SameTable libs messages messages' ↔ SameStart libs messages messages' := by
    unfold SameTable
    by_cases hsome : objects libs messages = []
    · have hsome' : objects libs messages' = [] := List.nil_perm.1 (hsome ▸ objects_perm h)
      rw [convert_nil hsome, convert_nil hsome']
      refine iff_of_true trivial fun key _ => ?_
      unfold valuesOf
      rw [hsome, hsome']
    · have hsome' : objects libs messages' ≠ [] :=
        fun hnil => hsome (List.perm_nil.1 (hnil ▸ objects_perm h))
      rw [convert_table hsome hshallow hgood, convert_table hsome' hshallow' hgood']
      constructor
      · exact fun hsame => sameStart_of_fields h hgood hgood' hsame.1
      · intro hstart
        obtain ⟨hfields, hrows⟩ := tables_of_sameStart h hgood hgood' hstart
        refine ⟨hfields, ?_⟩
        by_cases hkeys : ∀ dict ∈ objects libs messages, dict.items = []
        · exact Or.inl ⟨rowsUnder_of_noKeys hkeys _,
            rowsUnder_of_noKeys (fun dict h' => hkeys dict ((objects_perm h).mem_iff.2 h')) _⟩
        · have hkeys' : ¬ ∀ dict ∈ objects libs messages', dict.items = [] :=
            fun hnone => hkeys fun dict h' => hnone dict ((objects_perm h).mem_iff.1 h')
          refine Or.inr ⟨fun dict => convertedRow libs (plainRecords (objects libs messages))
            (dict.items.map fun item => (item.1, item.2.plain)), ?_, ?_⟩
          · exact (rowsUnder_of_keys hkeys _).trans (map_plainRecords _ _)
          · exact (rowsUnder_of_keys hkeys' _).trans
              ((List.map_congr_left hrows).trans (map_plainRecords _ _))
  simp [hraises, hraises', hiff]

/-! ## One and a half -/

def one : Bytes := "\x7b\"v\":1\x7d".toList.map fun c => c.toNat.toUInt8

def oneAndAHalf : Bytes := "\x7b\"v\":1.5\x7d".toList.map fun c => c.toNat.toUInt8

/-- The libraries as they answer on these two messages. -/
def numbers : Libs ℚ where
  reads := fun _ => []
  loads := fun raw => some (.object ⟨[("v", if raw = one then .int 1 else .float (3 / 2))],
    List.nodup_singleton "v"⟩)
  ofInt := fun n => n
  floatStr := fun _ => "1.5"
  boolToFloat := fun _ => none

theorem sameTable_iff_numbers :
    SameTable numbers [one, oneAndAHalf] [oneAndAHalf, one] ↔
      (Raises numbers [one, oneAndAHalf] ∧ Raises numbers [oneAndAHalf, one]) ∨
      (¬ Raises numbers [one, oneAndAHalf] ∧ ¬ Raises numbers [oneAndAHalf, one] ∧
        SameStart numbers [one, oneAndAHalf] [oneAndAHalf, one]) :=
  sameTable_iff numbers (.swap oneAndAHalf one [])

/-- The integer first makes a column of strings, the float first a column of floats. -/
theorem not_sameTable_numbers :
    [one, oneAndAHalf].Perm [oneAndAHalf, one] ∧
      ¬ SameTable numbers [one, oneAndAHalf] [oneAndAHalf, one] := by
  refine ⟨.swap oneAndAHalf one [], ?_⟩
  obtain ⟨rows, hstring⟩ : ∃ rows, convert numbers [one, oneAndAHalf]
      = .table ⟨[("v", .string)], rows⟩ := ⟨_, rfl⟩
  obtain ⟨rows', hfloat⟩ : ∃ rows, convert numbers [oneAndAHalf, one]
      = .table ⟨[("v", .float64)], rows⟩ := ⟨_, rfl⟩
  unfold SameTable
  rw [hstring, hfloat]
  rintro ⟨hfields, -⟩
  have hone : [("v", ColType.string)].Perm [("v", .float64)] := hfields
  exact absurd hone (by decide)

end Millpond.Arrow
