import Millpond.Arrow.Tables

set_option autoImplicit false

/-! # When conversion raises

`convert` has no answer for a nested value that `orjson.dumps` refuses, for a key whose sample is an
integer beyond int64, nor for a column that it takes for integers or floats while pyarrow refuses one
of its values. Anything else converts, to one row an object unless no object has a key. -/

namespace Millpond.Arrow

open ArrowConverter (Value Record ColType keysOf column sampleType sampleInferrable rowsUnder)

variable {F : Type}

/-! ## The input -/

/-- What a value is to Python; objects and arrays are text by the time it matters. -/
inductive Kind where
  | bool
  | int
  | float
  | str
deriving DecidableEq

def kind : Value F → Option Kind
  | .null => none
  | .bool _ => some .bool
  | .int _ => some .int
  | .float _ => some .float
  | .str _ => some .str

/-- The kinds of the values that are not null, in order. -/
def kinds (values : List (Value F)) : List Kind := values.filterMap kind

/-- The value after flattening, whether or not it is too deep for that. -/
def Loaded.plain : Loaded F → Value F
  | .null => .null
  | .bool b => .bool b
  | .int n => .int n
  | .float f => .float f
  | .str s => .str s
  | .nested _ text => .str text

def Loaded.TooDeep : Loaded F → Prop
  | .nested depth _ => dumpsLimit < depth
  | _ => False

def plainRecords (dicts : List (Dict F)) : List (Record F) :=
  dicts.map fun dict => dict.items.map fun item => (item.1, item.2.plain)

theorem map_plainRecords {α : Type} (f : Record F → α) (dicts : List (Dict F)) :
    (plainRecords dicts).map f
      = dicts.map fun dict => f (dict.items.map fun item => (item.1, item.2.plain)) := by
  rw [plainRecords, List.map_map]
  rfl

variable (libs : Libs F)

/-- The values that messages have for a key. -/
def valuesOf (messages : List Bytes) (key : String) : List (Value F) :=
  column key (plainRecords (objects libs messages))

/-- Some value nests too deep. -/
def NestsTooDeep (messages : List Bytes) : Prop :=
  ∃ dict ∈ objects libs messages, ∃ item ∈ dict.items, item.2.TooDeep

/-- The first value that is not null is an integer that int64 does not hold. -/
def RefusedSample (values : List (Value F)) : Prop :=
  ∃ n, values.find? (!·.isNull) = some (.int n) ∧ inInt64 n = false

/-- Integers first, and then nothing but integers and bools: a bool, or an integer beyond int64. -/
def RefusedInt (values : List (Value F)) : Prop :=
  (kinds values).head? = some .int ∧ .float ∉ kinds values ∧ .str ∉ kinds values ∧
    (.bool ∈ kinds values ∨ ∃ n, .int n ∈ values ∧ inInt64 n = false)

/-- A float first, and then nothing but numbers and bools: a bool that pyarrow does not take for a
    float. -/
def RefusedFloat (values : List (Value F)) : Prop :=
  (kinds values).head? = some .float ∧ .str ∉ kinds values ∧
    ∃ b, .bool b ∈ values ∧ libs.boolToFloat b = none

def Refused (values : List (Value F)) : Prop :=
  RefusedSample values ∨ RefusedInt values ∨ RefusedFloat libs values

/-- There are objects, and none has a key. -/
def NoKeys (messages : List Bytes) : Prop :=
  objects libs messages ≠ [] ∧ ∀ dict ∈ objects libs messages, dict.items = []

/-! ## The property -/

/-- What a value may be in a cell: itself, as a float, or as text. -/
inductive Becomes : Loaded F → Option (Cell F) → Prop where
  | null : Becomes .null none
  | bool (b : Bool) : Becomes (.bool b) (some (.bool b))
  | int (n : ℤ) : Becomes (.int n) (some (.int n))
  | float (f : F) : Becomes (.float f) (some (.float f))
  | str (s : String) : Becomes (.str s) (some (.str s))
  | nested (depth : ℕ) (text : String) : Becomes (.nested depth text) (some (.str text))
  | boolFloat (b : Bool) (f : F) (h : libs.boolToFloat b = some f) :
      Becomes (.bool b) (some (.float f))
  | intFloat (n : ℤ) : Becomes (.int n) (some (.float (libs.ofInt n)))
  | boolStr (b : Bool) : Becomes (.bool b) (some (.str (Value.pyStr libs.backend (.bool b))))
  | intStr (n : ℤ) : Becomes (.int n) (some (.str (toString n)))
  | floatStr (f : F) : Becomes (.float f) (some (.str (libs.floatStr f)))

/-- The row has a cell for each of the object's items. -/
def IsRowOf (dict : Dict F) (row : Row F) : Prop :=
  (∀ item ∈ dict.items, Becomes libs item.2 (row item.1)) ∧
    ∀ name ∉ dict.items.map Prod.fst, row name = none

/-- `convert` returns, and exactly one row for each object, in their order. -/
def Converts (messages : List Bytes) : Prop :=
  match convert libs messages with
  | .raised => False
  | .none => objects libs messages = []
  | .table table => objects libs messages ≠ [] ∧
      List.Forall₂ (IsRowOf libs) (objects libs messages) table.rows

/-! ## Kinds and types -/

variable {libs}

theorem mem_kinds {values : List (Value F)} {k : Kind} :
    k ∈ kinds values ↔ ∃ v ∈ values, kind v = some k := List.mem_filterMap

theorem kind_isSome (v : Value F) : (kind v).isSome = !v.isNull := by cases v <;> rfl

/-- The first kind is that of the sample. -/
theorem head?_kinds (values : List (Value F)) :
    (kinds values).head? = (values.find? (!·.isNull)).bind kind := by
  unfold kinds
  rw [List.head?_filterMap]
  induction values with
  | nil => rfl
  | cons v rest ih =>
      rw [List.findSome?_cons, List.find?_cons]
      cases v <;> simp [kind, Value.isNull, ih]

/-- The kinds that the type of a sample accepts. -/
def Kind.takes : Kind → List Kind
  | .bool => [.bool]
  | .int => [.int, .bool]
  | .float => [.int, .float, .bool]
  | .str => [.str]

theorem accepts_eq {sample v : Value F} {k k' : Kind} (hsample : kind sample = some k)
    (hv : kind v = some k') : sample.arrowType.accepts v = decide (k' ∈ k.takes) := by
  cases sample with
  | null => cases hsample
  | int n =>
      obtain rfl : Kind.int = k := Option.some.inj hsample
      cases v <;> cases hv <;> rfl
  | bool b =>
      obtain rfl : Kind.bool = k := Option.some.inj hsample
      cases v <;> cases hv <;> rfl
  | float f =>
      obtain rfl : Kind.float = k := Option.some.inj hsample
      cases v <;> cases hv <;> rfl
  | str t =>
      obtain rfl : Kind.str = k := Option.some.inj hsample
      cases v <;> cases hv <;> rfl

theorem exists_of_head? {values : List (Value F)} {k : Kind} (h : (kinds values).head? = some k) :
    ∃ sample ∈ values, values.find? (!·.isNull) = some sample ∧ kind sample = some k ∧
      sampleType values = sample.arrowType := by
  rw [head?_kinds] at h
  obtain ⟨sample, hfirst, hkind⟩ := Option.bind_eq_some_iff.1 h
  exact ⟨sample, List.mem_of_find?_eq_some hfirst, hfirst, hkind, by rw [sampleType, hfirst]⟩

/-- A column is mixed when some kind is not one that its first kind takes. -/
theorem mixed_iff_kinds {values : List (Value F)} :
    mixed values = true ↔
      ∃ k, (kinds values).head? = some k ∧ ∃ k' ∈ kinds values, k' ∉ k.takes := by
  unfold mixed
  simp only [List.any_eq_true, Bool.and_eq_true, Bool.not_eq_true']
  constructor
  · rintro ⟨v, hv, hnull, haccepts⟩
    obtain ⟨k', hk'⟩ := Option.isSome_iff_exists.1 ((kind_isSome v).trans (by simp [hnull]))
    have hmem : k' ∈ kinds values := mem_kinds.2 ⟨v, hv, hk'⟩
    obtain ⟨k, hhead⟩ := Option.isSome_iff_exists.1
      (List.isSome_head?.2 (List.ne_nil_of_mem hmem))
    obtain ⟨sample, -, -, hkind, htype⟩ := exists_of_head? hhead
    rw [htype, accepts_eq hkind hk'] at haccepts
    exact ⟨k, hhead, k', hmem, by simpa using haccepts⟩
  · rintro ⟨k, hhead, k', hmem, hnot⟩
    obtain ⟨v, hv, hk'⟩ := mem_kinds.1 hmem
    obtain ⟨sample, -, -, hkind, htype⟩ := exists_of_head? hhead
    have hsome := kind_isSome v
    rw [hk'] at hsome
    refine ⟨v, hv, by simpa using hsome.symm, ?_⟩
    rw [htype, accepts_eq hkind hk']
    simpa using hnot

theorem takes_of_not_mixed {values : List (Value F)} (h : mixed values = false) {k k' : Kind}
    (hhead : (kinds values).head? = some k) (hmem : k' ∈ kinds values) : k' ∈ k.takes := by
  by_contra hnot
  have hmixed := mixed_iff_kinds.2 ⟨k, hhead, k', hmem, hnot⟩
  rw [h] at hmixed
  cases hmixed

/-- A kind of a value of a column that is not mixed. -/
theorem kind_of_not_mixed {values : List (Value F)} (h : mixed values = false) {k : Kind}
    (hhead : (kinds values).head? = some k) {v : Value F} (hv : v ∈ values) :
    v = .null ∨ ∃ k' ∈ k.takes, kind v = some k' := by
  cases hkind : kind v with
  | none => cases v <;> first | exact Or.inl rfl | cases hkind
  | some k' => exact Or.inr ⟨k', takes_of_not_mixed h hhead (mem_kinds.2 ⟨v, hv, hkind⟩), rfl⟩

/-! ## Which columns fit -/

theorem sampleInferrable_iff {values : List (Value F)} :
    sampleInferrable values = true ↔ ¬ RefusedSample values := by
  unfold sampleInferrable RefusedSample
  cases hfirst : values.find? (!·.isNull) with
  | none => simp
  | some sample => cases sample <;> simp [Value.inferrable, inInt64]

/-- The values of a column whose kinds mix are text. -/
theorem cells_of_mixed {values : List (Value F)} (h : mixed values = true) :
    ∀ v ∈ values, (cellOf libs values v).isSome := by
  have htype : finalType values = .string := by rw [finalType, if_pos h]
  intro v _
  unfold cellOf patchedValue
  rw [htype, if_pos h]
  cases v <;> rfl

/-- Without a mix a value is taken as it is, or as a float. -/
theorem cellOf_of_not_mixed {values : List (Value F)} (h : mixed values = false) (v : Value F) :
    cellOf libs values v = toCell libs (sampleType values) (floated libs (sampleType values) v) := by
  unfold cellOf patchedValue finalType
  rw [if_neg (by simp [h]), if_neg (by simp [h])]

theorem finalType_of_not_mixed {values : List (Value F)} (h : mixed values = false) :
    finalType values = sampleType values := by
  rw [finalType, if_neg (by simp [h])]

/-- The cells of a column exist: its values fit the type of its sample. -/
def Celled (libs : Libs F) (values : List (Value F)) : Prop :=
  ∀ v ∈ values, (cellOf libs values v).isSome

/-- Only integers within int64 are taken for integers. -/
theorem celled_int_iff {values : List (Value F)} (h : mixed values = false)
    (hhead : (kinds values).head? = some .int) :
    Celled libs values ↔ ¬ (RefusedInt values ∨ RefusedFloat libs values) := by
  obtain ⟨sample, hmem, -, hkind, htype⟩ := exists_of_head? hhead
  obtain ⟨n, rfl⟩ : ∃ n, sample = .int n := by
    cases sample <;> first | exact ⟨_, rfl⟩ | cases hkind
  have htakes : ∀ k ∈ kinds values, k ∈ Kind.int.takes := fun k hk => takes_of_not_mixed h hhead hk
  have hnofloat : .float ∉ kinds values := fun hk => absurd (htakes _ hk) (by decide)
  have hnostr : .str ∉ kinds values := fun hk => absurd (htakes _ hk) (by decide)
  have hrefused : RefusedInt values ∨ RefusedFloat libs values ↔
      .bool ∈ kinds values ∨ ∃ n, Value.int n ∈ values ∧ inInt64 n = false := by
    constructor
    · rintro (⟨-, -, -, hbad⟩ | ⟨hfloat, -⟩)
      · exact hbad
      · rw [hhead] at hfloat
        cases hfloat
    · exact fun hbad => Or.inl ⟨hhead, hnofloat, hnostr, hbad⟩
  have hint : (Value.int n : Value F).arrowType = .int64 := rfl
  rw [hrefused]
  constructor
  · rintro hcells (hbool | ⟨m, hm, hout⟩)
    · obtain ⟨v, hv, hk⟩ := mem_kinds.1 hbool
      have hcell := hcells v hv
      rw [cellOf_of_not_mixed h, htype, hint] at hcell
      cases v <;> cases hk
      simp [toCell, floated] at hcell
    · have hcell := hcells _ hm
      rw [cellOf_of_not_mixed h, htype, hint] at hcell
      simp [toCell, floated, hout] at hcell
  · intro hgood v hv
    rw [cellOf_of_not_mixed h, htype, hint]
    rcases kind_of_not_mixed h hhead hv with rfl | ⟨k, hk, hkind⟩
    · rfl
    · cases v with
      | int m =>
          have hm : inInt64 m = true := by
            by_contra hout
            exact hgood (Or.inr ⟨m, hv, by simpa using hout⟩)
          simp [toCell, floated, hm]
      | bool b => exact absurd (Or.inl (mem_kinds.2 ⟨_, hv, rfl⟩)) hgood
      | _ => cases hkind <;> simp [Kind.takes] at hk

theorem celled_float_iff {values : List (Value F)} (h : mixed values = false)
    (hhead : (kinds values).head? = some .float) :
    Celled libs values ↔ ¬ (RefusedInt values ∨ RefusedFloat libs values) := by
  obtain ⟨sample, -, -, hkind, htype⟩ := exists_of_head? hhead
  obtain ⟨f, rfl⟩ : ∃ f, sample = .float f := by
    cases sample <;> first | exact ⟨_, rfl⟩ | cases hkind
  have hnostr : .str ∉ kinds values :=
    fun hk => absurd (takes_of_not_mixed h hhead hk) (by decide)
  have hrefused : RefusedInt values ∨ RefusedFloat libs values ↔
      ∃ b, Value.bool b ∈ values ∧ libs.boolToFloat b = none := by
    constructor
    · rintro (⟨hint, -⟩ | ⟨-, -, hbad⟩)
      · rw [hhead] at hint
        cases hint
      · exact hbad
    · exact fun hbad => Or.inr ⟨hhead, hnostr, hbad⟩
  have hfloat : (Value.float f : Value F).arrowType = .float64 := rfl
  rw [hrefused]
  constructor
  · rintro hcells ⟨b, hb, hnone⟩
    have hcell := hcells _ hb
    rw [cellOf_of_not_mixed h, htype, hfloat] at hcell
    simp [toCell, floated, hnone] at hcell
  · intro hgood v hv
    rw [cellOf_of_not_mixed h, htype, hfloat]
    rcases kind_of_not_mixed h hhead hv with rfl | ⟨k, hk, hkind⟩
    · rfl
    · cases v with
      | bool b =>
          cases hb : libs.boolToFloat b with
          | none => exact absurd ⟨b, hv, hb⟩ hgood
          | some g => simp [toCell, floated, hb]
      | str s => cases hkind; simp [Kind.takes] at hk
      | _ => rfl

/-- The cells exist unless the integers or the floats are refused. -/
theorem celled_iff (values : List (Value F)) :
    Celled libs values ↔ ¬ (RefusedInt values ∨ RefusedFloat libs values) := by
  cases hmixed : mixed values with
  | true =>
      refine iff_of_true (cells_of_mixed hmixed) ?_
      obtain ⟨k, hhead, k', hmem, hnot⟩ := mixed_iff_kinds.1 hmixed
      rintro (⟨hint, hnofloat, hnostr, -⟩ | ⟨hfloat, hnostr, -⟩)
      · obtain rfl := Option.some.inj (hhead.symm.trans hint)
        cases k' <;> simp_all [Kind.takes]
      · obtain rfl := Option.some.inj (hhead.symm.trans hfloat)
        cases k' <;> simp_all [Kind.takes]
  | false =>
      cases hhead : (kinds values).head? with
      | none =>
          -- nothing but nulls
          refine iff_of_true (fun v hv => ?_) ?_
          · have hnil : kinds values = [] := List.head?_eq_none_iff.1 hhead
            have hkind := List.filterMap_eq_nil_iff.1 hnil v hv
            cases v with
            | null =>
                rw [cellOf_of_not_mixed hmixed, floated_null, toCell_null]
                rfl
            | _ => cases hkind
          · rintro (⟨hint, -⟩ | ⟨hfloat, -⟩)
            · rw [hhead] at hint
              cases hint
            · rw [hhead] at hfloat
              cases hfloat
      | some k =>
          have hone : k = .bool ∨ k = .str →
              (Celled libs values ↔ ¬ (RefusedInt values ∨ RefusedFloat libs values)) := by
            intro hk
            obtain ⟨sample, -, -, hkind, htype⟩ := exists_of_head? hhead
            refine iff_of_true (fun v hv => ?_) ?_
            · rw [cellOf_of_not_mixed hmixed, htype]
              rcases kind_of_not_mixed hmixed hhead hv with rfl | ⟨k', hk', hkind'⟩
              · rw [floated_null, toCell_null]
                rfl
              · rcases hk with rfl | rfl <;> cases sample <;> cases hkind <;>
                  simp [Kind.takes] at hk' <;> subst hk' <;> cases v <;> cases hkind' <;> rfl
            · rintro (⟨hint, -⟩ | ⟨hfloat, -⟩)
              · rw [hhead] at hint
                rcases hk with rfl | rfl <;> cases hint
              · rw [hhead] at hfloat
                rcases hk with rfl | rfl <;> cases hfloat
          cases k with
          | int => exact celled_int_iff hmixed hhead
          | float => exact celled_float_iff hmixed hhead
          | bool => exact hone (Or.inl rfl)
          | str => exact hone (Or.inr rfl)

/-- **A column fits unless it is refused.** -/
theorem fits_iff (values : List (Value F)) : Fits libs values ↔ ¬ Refused libs values := by
  unfold Fits Refused
  rw [not_or, sampleInferrable_iff]
  exact and_congr_right fun _ => celled_iff values

/-! ## When `convert` returns -/

theorem flatten_eq (v : Loaded F) :
    (v.TooDeep ∧ v.flatten = none) ∨ (¬ v.TooDeep ∧ v.flatten = some v.plain) := by
  cases v with
  | nested depth text =>
      by_cases h : depth ≤ dumpsLimit
      · exact Or.inr ⟨Nat.not_lt.2 h, by simp [Loaded.flatten, Loaded.plain, h]⟩
      · exact Or.inl ⟨Nat.lt_of_not_le h, by simp [Loaded.flatten, h]⟩
  | _ => exact Or.inr ⟨id, rfl⟩

theorem flattenNestedToJson_tooDeep {dicts : List (Dict F)}
    (h : ∃ dict ∈ dicts, ∃ item ∈ dict.items, item.2.TooDeep) : flattenNestedToJson dicts = none := by
  obtain ⟨dict, hdict, item, hitem, hdeep⟩ := h
  refine mapM_eq_none_iff.2 ⟨dict, hdict, mapM_eq_none_iff.2 ⟨item, hitem, ?_⟩⟩
  rcases flatten_eq item.2 with ⟨-, hnone⟩ | ⟨hshallow, -⟩
  · rw [hnone]
    rfl
  · exact absurd hdeep hshallow

theorem flattenNestedToJson_shallow {dicts : List (Dict F)}
    (h : ¬ ∃ dict ∈ dicts, ∃ item ∈ dict.items, item.2.TooDeep) :
    flattenNestedToJson dicts = some (plainRecords dicts) := by
  refine mapM_eq_some_map fun dict hdict => mapM_eq_some_map fun item hitem => ?_
  rcases flatten_eq item.2 with ⟨hdeep, -⟩ | ⟨-, hsome⟩
  · exact absurd ⟨dict, hdict, item, hitem, hdeep⟩ h
  · rw [hsome]
    rfl

theorem plainRecords_distinct (dicts : List (Dict F)) :
    ∀ record ∈ plainRecords dicts, (record.map Prod.fst).Nodup := by
  intro record hrecord
  obtain ⟨dict, -, rfl⟩ := List.mem_map.1 hrecord
  rw [List.map_map]
  exact dict.distinct

variable {messages : List Bytes}

theorem convert_nil (h : objects libs messages = []) : convert libs messages = .none := by
  unfold convert
  rw [h]
  rfl

/-- **Conversion returns** for a batch without deep values and refused columns. -/
theorem convert_table (hsome : objects libs messages ≠ []) (hshallow : ¬ NestsTooDeep libs messages)
    (hfits : ∀ key, ¬ Refused libs (valuesOf libs messages key)) :
    convert libs messages = .table
      ⟨tableFields (plainRecords (objects libs messages)),
        rowsUnder (tableFields (plainRecords (objects libs messages)))
          ((plainRecords (objects libs messages)).map
            (convertedRow libs (plainRecords (objects libs messages))))⟩ := by
  have hempty : (objects libs messages).isEmpty = false := List.isEmpty_eq_false_iff.2 hsome
  unfold convert
  simp only [hempty, flattenNestedToJson_shallow hshallow, Option.bind_some]
  rw [tableOf_fits fun key _ => (fits_iff _).2 (hfits key)]
  rfl

/-- And it raises for the others. -/
theorem convert_raised (h : NestsTooDeep libs messages ∨
    ∃ key, Refused libs (valuesOf libs messages key)) : convert libs messages = .raised := by
  have hsome : objects libs messages ≠ [] := by
    intro hnil
    rcases h with ⟨dict, hdict, -⟩ | ⟨key, hrefused⟩
    · rw [hnil] at hdict
      exact absurd hdict List.not_mem_nil
    · refine absurd hrefused ((fits_iff _).1 ?_)
      unfold valuesOf
      rw [hnil]
      exact ⟨rfl, fun v hv => absurd hv List.not_mem_nil⟩
  have hempty : (objects libs messages).isEmpty = false := List.isEmpty_eq_false_iff.2 hsome
  unfold convert
  by_cases hdeep : NestsTooDeep libs messages
  · simp only [hempty, flattenNestedToJson_tooDeep hdeep]
    rfl
  · obtain ⟨key, hrefused⟩ := h.resolve_left hdeep
    have hkey : key ∈ keysOf (plainRecords (objects libs messages)) := by
      by_contra hnot
      have hnil : valuesOf libs messages key = [] :=
        List.eq_nil_iff_forall_not_mem.2 fun v hv => hnot (ArrowConverter.mem_keysOf.2 ⟨v, hv⟩)
      rw [hnil] at hrefused
      rcases hrefused with ⟨n, hhead, -⟩ | ⟨hhead, -⟩ | ⟨hhead, -⟩ <;> cases hhead
    simp only [hempty, flattenNestedToJson_shallow hdeep, Option.bind_some]
    rw [tableOf_unfit (plainRecords_distinct _) hkey fun hfits => (fits_iff _).1 hfits hrefused]
    rfl

/-! ## Rows -/

/-- A cell of a column shows its value. -/
theorem becomes_of_cellOf {values : List (Value F)} {v : Loaded F} {cell : Option (Cell F)}
    (h : cellOf libs values v.plain = some cell) : Becomes libs v cell := by
  cases hmixed : mixed values with
  | true =>
      have htype : finalType values = .string := by rw [finalType, if_pos hmixed]
      unfold cellOf patchedValue at h
      rw [htype, if_pos hmixed] at h
      cases v <;> obtain rfl := Option.some.inj h <;> constructor
  | false =>
      rw [cellOf_of_not_mixed hmixed] at h
      generalize sampleType values = type at h
      cases v with
      | null =>
          rw [Loaded.plain, floated_null, toCell_null] at h
          obtain rfl := Option.some.inj h
          exact .null
      | bool b =>
          cases type <;> simp [Loaded.plain, floated, toCell] at h
          · obtain rfl := h
            exact .bool b
          · obtain ⟨f, hf, rfl⟩ := h
            exact .boolFloat b f hf
      | int n =>
          cases type <;> simp [Loaded.plain, floated, toCell] at h
          · obtain ⟨-, rfl⟩ := h
            exact .int n
          · obtain ⟨-, rfl⟩ := h
            exact .int n
          · obtain rfl := h
            exact .intFloat n
      | float f =>
          cases type <;> simp [Loaded.plain, floated, toCell] at h
          obtain rfl := h
          exact .float f
      | str s =>
          cases type <;> simp [Loaded.plain, floated, toCell] at h
          obtain rfl := h
          exact .str s
      | nested depth text =>
          cases type <;> simp [Loaded.plain, floated, toCell] at h
          obtain rfl := h
          exact .nested depth text

theorem isRowOf_convertedRow {dicts : List (Dict F)} {dict : Dict F} (hdict : dict ∈ dicts)
    (hfits : ∀ key, Fits libs (column key (plainRecords dicts))) :
    IsRowOf libs dict (convertedRow libs (plainRecords dicts)
      (dict.items.map fun item => (item.1, item.2.plain))) := by
  have hrecord : dict.items.map (fun item => (item.1, item.2.plain)) ∈ plainRecords dicts :=
    List.mem_map_of_mem hdict
  refine ⟨fun item hitem => ?_, fun name hname => ?_⟩
  · have hplain : (item.1, item.2.plain) ∈ dict.items.map fun item => (item.1, item.2.plain) :=
      List.mem_map_of_mem hitem
    have hvalue : item.2.plain ∈ column item.1 (plainRecords dicts) :=
      mem_column.2 ⟨_, hrecord, hplain⟩
    obtain ⟨cell, hcell⟩ := Option.isSome_iff_exists.1 ((hfits item.1).2 _ hvalue)
    have hrow : convertedRow libs (plainRecords dicts)
        (dict.items.map fun item => (item.1, item.2.plain)) item.1 = cell := by
      unfold convertedRow
      rw [lookup_of_mem (plainRecords_distinct dicts _ hrecord) hplain, Option.bind_some, hcell,
        Option.join_some]
    rw [hrow]
    exact becomes_of_cellOf hcell
  · unfold convertedRow
    rw [lookup_map_values (fun _ v => Loaded.plain v)]
    cases hlook : dict.items.lookup name with
    | none => rfl
    | some v => exact absurd (List.mem_map.2 ⟨_, mem_of_lookup_eq_some hlook, rfl⟩) hname

/-- A batch has no columns when its objects have no keys. -/
theorem tableFields_eq_nil_iff {dicts : List (Dict F)} :
    tableFields (plainRecords dicts) = [] ↔ ∀ dict ∈ dicts, dict.items = [] := by
  unfold tableFields
  rw [List.map_eq_nil_iff, List.eq_nil_iff_forall_not_mem]
  constructor
  · intro hnone dict hdict
    refine List.eq_nil_iff_forall_not_mem.2 fun item hitem => hnone item.1 ?_
    exact ArrowConverter.mem_keysOf.2 ⟨item.2.plain, mem_column.2
      ⟨_, List.mem_map_of_mem hdict, List.mem_map.2 ⟨item, hitem, rfl⟩⟩⟩
  · intro hnil key hkey
    obtain ⟨v, hv⟩ := ArrowConverter.mem_keysOf.1 hkey
    obtain ⟨record, hrecord, hmem⟩ := mem_column.1 hv
    obtain ⟨dict, hdict, rfl⟩ := List.mem_map.1 hrecord
    rw [hnil dict hdict] at hmem
    cases hmem

/-- The rows of a batch with keys. -/
theorem rowsUnder_of_keys {α : Type} {dicts : List (Dict F)} (h : ¬ ∀ dict ∈ dicts, dict.items = [])
    (rows : List α) : rowsUnder (tableFields (plainRecords dicts)) rows = rows := by
  unfold rowsUnder
  rw [List.isEmpty_eq_false_iff.2 (mt tableFields_eq_nil_iff.1 h)]
  rfl

theorem rowsUnder_of_noKeys {α : Type} {dicts : List (Dict F)} (h : ∀ dict ∈ dicts, dict.items = [])
    (rows : List α) : rowsUnder (tableFields (plainRecords dicts)) rows = [] := by
  unfold rowsUnder
  rw [tableFields_eq_nil_iff.2 h]
  rfl

variable (libs messages) in
/-- **When conversion is total.** `convert` returns, with one row for each object, exactly if nothing
    nests too deep, no column is refused, and some object has a key if there is one at all. -/
theorem converts_iff : Converts libs messages ↔
    ¬ NestsTooDeep libs messages ∧ (∀ key, ¬ Refused libs (valuesOf libs messages key)) ∧
      ¬ NoKeys libs messages := by
  constructor
  · intro h
    have hgood : ¬ (NestsTooDeep libs messages ∨
        ∃ key, Refused libs (valuesOf libs messages key)) := by
      intro hraised
      unfold Converts at h
      rw [convert_raised hraised] at h
      exact h
    rw [not_or, not_exists] at hgood
    refine ⟨hgood.1, hgood.2, fun ⟨hsome, hkeys⟩ => ?_⟩
    unfold Converts at h
    rw [convert_table hsome hgood.1 hgood.2, rowsUnder_of_noKeys hkeys] at h
    exact hsome (List.forall₂_nil_right_iff.1 h.2)
  · rintro ⟨hshallow, hfits, hkeys⟩
    unfold Converts
    by_cases hsome : objects libs messages = []
    · rw [convert_nil hsome]
      exact hsome
    · rw [convert_table hsome hshallow hfits]
      refine ⟨hsome, ?_⟩
      show List.Forall₂ _ _ (rowsUnder _ ((plainRecords (objects libs messages)).map _))
      rw [rowsUnder_of_keys fun hnone => hkeys ⟨hsome, hnone⟩, map_plainRecords,
        List.forall₂_map_right_iff, List.forall₂_same]
      exact fun dict hdict => isRowOf_convertedRow hdict fun key => (fits_iff _).2 (hfits key)

/-! ## The converter of the pending buffer -/

def Loaded.toJson : Loaded F → ArrowConverter.Json F
  | .null => .null
  | .bool b => .bool b
  | .int n => .int n
  | .float f => .float f
  | .str s => .str s
  | .nested _ text => .nested text

def Document.parsed : Document F → ArrowConverter.Parsed F
  | .object dict => .object (dict.items.map fun item => (item.1, item.2.toJson)) (by
      rw [List.map_map]
      exact dict.distinct)
  | .other => .other

theorem recordsOf_parsed (messages : List Bytes) :
    ArrowConverter.recordsOf (messages.map fun raw =>
        ((decodeValue libs raw).bind libs.loads).map Document.parsed)
      = plainRecords (objects libs messages) := by
  unfold ArrowConverter.recordsOf plainRecords objects
  rw [List.filterMap_map, List.map_filterMap]
  refine List.filterMap_congr fun raw _ => ?_
  simp only [Function.comp_apply, decodes]
  cases (decodeValue libs raw).bind libs.loads with
  | none => rfl
  | some document =>
      cases document with
      | other => rfl
      | object dict =>
          simp only [Option.map_some, Document.parsed, List.map_map]
          refine congrArg some (List.map_congr_left fun item _ => ?_)
          obtain ⟨name, v⟩ := item
          cases v <;> rfl

/-- The tables that fill the pending buffer have the columns and types of these. -/
theorem converter_fields (hsome : objects libs messages ≠ [])
    (hfits : ∀ key, ¬ Refused libs (valuesOf libs messages key)) :
    ArrowConverter.convert libs.backend (messages.map fun raw =>
        ((decodeValue libs raw).bind libs.loads).map Document.parsed)
      = .table ⟨tableFields (plainRecords (objects libs messages)),
          rowsUnder (tableFields (plainRecords (objects libs messages)))
            (plainRecords (objects libs messages))⟩ := by
  have hall : ∀ key ∈ keysOf (plainRecords (objects libs messages)),
      Fits libs (column key (plainRecords (objects libs messages))) :=
    fun key _ => (fits_iff _).2 (hfits key)
  have hrecords : (plainRecords (objects libs messages)).isEmpty = false := by
    rw [plainRecords, List.isEmpty_map]
    exact List.isEmpty_eq_false_iff.2 hsome
  unfold ArrowConverter.convert
  rw [recordsOf_parsed]
  simp only [hrecords, floatify_patched]
  rw [patchMixedTypes_schema]
  have hpylist : libs.backend.fromPylist ((plainRecords (objects libs messages)).map fun record =>
      record.map fun item => (item.1, patchedValue libs
        (column item.1 (plainRecords (objects libs messages))) item.2))
      (tableFields (plainRecords (objects libs messages))) = true := by
    show (fromPylist libs _ _).isSome = true
    rw [fromPylist_fits hall]
    rfl
  have hnone : (tableFields (plainRecords (objects libs messages))).any (fun field =>
      field.2 = .uint64 && !libs.backend.castInt64 ((plainRecords (objects libs messages)).map
        fun record => record.map fun item => (item.1, patchedValue libs
          (column item.1 (plainRecords (objects libs messages))) item.2)) field.1) = false := by
    rw [List.any_eq_false]
    intro field hfield
    simp [tableFields_ne_uint64 _ field hfield]
  unfold tableFields at hpylist hnone
  rw [hpylist, hnone]
  have hfields := normalize_tableFields (plainRecords (objects libs messages))
  have hdrop := dropNull_tableFields (plainRecords (objects libs messages))
  unfold tableFields at hfields hdrop ⊢
  simp only [hfields, hdrop, inferrable_of_fits hall]
  rfl

/-- One message, and the libraries as they answer on it. -/
def oneMessage (items : List (String × Loaded Unit)) (distinct : (items.map Prod.fst).Nodup) :
    Libs Unit where
  reads := fun _ => []
  loads := fun _ => some (.object ⟨items, distinct⟩)
  ofInt := fun _ => ()
  floatStr := fun _ => "0.0"
  boolToFloat := fun _ => none

/-- An object whose only item is an integer that int64 does not hold. -/
def aboveInt64 : Bytes :=
  "\x7b\"v\":18446744073709551615\x7d".toList.map fun c => c.toNat.toUInt8

/-- `orjson` parses the integer, and `pa.array` of the sample raises. -/
theorem not_converts_aboveInt64 :
    ¬ Converts (oneMessage [("v", .int 18446744073709551615)] (by decide)) [aboveInt64] := by
  have hvalues : valuesOf (oneMessage [("v", .int 18446744073709551615)] (by decide)) [aboveInt64] "v"
      = [.int 18446744073709551615] := by decide +kernel
  have hrefused : RefusedSample [(.int 18446744073709551615 : Value Unit)] := ⟨_, rfl, by decide⟩
  unfold Converts
  rw [convert_raised (Or.inr ⟨"v", Or.inl (hvalues ▸ hrefused)⟩)]
  exact id

end Millpond.Arrow
