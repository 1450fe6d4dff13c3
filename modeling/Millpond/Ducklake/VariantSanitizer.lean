import Millpond.Ducklake.VariantSources
import Millpond.Lib.Outcomes

set_option autoImplicit false

/-! # The VARIANT sanitizer

When `_coerce_unshreddable_ints` does what it says: the integers that cannot be shredded become
strings and everything else is preserved. A rewritten document goes through the float parser, the
dicts and the printer of `orjson` as a whole, so this hangs on what they do to the rest of it. -/

namespace Millpond.Ducklake

variable {F : Type} {lib : Orjson F} {frames : ℕ} {raw : Option String}

/-! ## The property -/

/-- The scalar as it should be. -/
def rewrittenScalar : JsonScalar → JsonScalar
  | .number lit =>
      if lit.isInteger && isUnshreddable lit.intValue then .string (toString lit.intValue)
      else .number lit
  | value => value

/-- The same value: numbers by what they are worth. -/
def SameValue : JsonScalar → JsonScalar → Prop
  | .number a, .number b => a.value = b.value
  | value, value' => value = value'

/-- An integer literal in (2^63-1, 2^64-1] stands in the document. -/
def HasUnshreddable (doc : Json) : Prop :=
  ∃ lit, .number lit ∈ doc.leaves ∧ lit.isInteger = true ∧ isUnshreddable lit.intValue = true

/-- The claim of the docstring about one text. -/
structure Sanitizes (lib : Orjson F) (frames : ℕ) (raw : Option String) : Prop where
  flagged : ∀ text doc, raw = some text → lib.read text = some doc → HasUnshreddable doc →
    maybeUnshreddable text = true
  runs : ∃ r, coerceUnshreddableInts lib frames raw = .ok r
  clean : ∀ r text doc, coerceUnshreddableInts lib frames raw = .ok r → r.value raw = some text →
    lib.read text = some doc → ¬ HasUnshreddable doc
  kept : ∀ r doc, coerceUnshreddableInts lib frames raw = .ok r → raw.bind lib.read = some doc →
    ∃ text doc', r.value raw = some text ∧ lib.read text = some doc' ∧
      Doc.Rel SameValue (doc.map rewrittenScalar) doc'
  same : (∀ doc, raw.bind lib.read = some doc → ¬ HasUnshreddable doc) →
    ∀ r, coerceUnshreddableInts lib frames raw = .ok r → r = .same
  twice : ∀ r, coerceUnshreddableInts lib frames raw = .ok r →
    coerceUnshreddableInts lib frames (r.value raw) = .ok .same

/-- When it holds. -/
structure Fits (lib : Orjson F) (frames : ℕ) (doc : Json) : Prop where
  /-- The interpreter has frames for the walk. -/
  frames : doc.collapse.height ≤ frames
  /-- In a document that is rewritten no key is there twice, -/
  keys : HasUnshreddable doc → doc.UniqueKeys
  /-- the nesting is one that `dumps` takes, -/
  nesting : HasUnshreddable doc → doc.depth ≤ 254
  /-- and every number that is read as a float is printed as the same number. -/
  floats : HasUnshreddable doc → ∀ lit, .number lit ∈ doc.leaves → Orjson.isInt lit = false →
    (lib.printed (lib.toFloat lit)).value = lit.value

/-- What is relied on of JSON and `orjson`. -/
structure Orjson.Lawful (lib : Orjson F) : Prop where
  /-- A text has the integer literals of its document in it. -/
  occurs : ∀ text doc, lib.read text = some doc → ∀ lit, .number lit ∈ doc.leaves →
    lit.isInteger = true → lit.text <:+: text.toList
  /-- A float is printed with a point or an exponent. -/
  printed_float : ∀ x, (lib.printed x).isInteger = false
  /-- What is written of a rewritten document is read back. -/
  reads_back : ∀ text obj, lib.loads text = some obj → obj.depth ≤ 254 →
    lib.read (lib.render ((obj.map fun v => (walkScalar v).1).map lib.writtenScalar))
      = some ((obj.map fun v => (walkScalar v).1).map lib.writtenScalar)

/-! ## The walk -/

/-- The walk needs a frame for each level, and rewrites the scalars. -/
theorem walk_eq (d : Doc (PyScalar F)) : ∀ frames, walk d frames =
    if d.height ≤ frames then .ok (d.map fun v => (walkScalar v).1, d.leaves.any fun v => (walkScalar v).2)
    else .error .recursionError := by
  induction d using Doc.induct with
  | scalar value =>
      intro frames
      cases frames with
      | zero => rfl
      | succ frames =>
          have hle : (Doc.scalar value : Doc (PyScalar F)).height ≤ frames + 1 := by
            simp [Doc.height, Doc.nesting]
          rw [if_pos hle]
          simp [walk, Doc.map, Doc.leaves]
  | array items ih =>
      intro frames
      cases frames with
      | zero => rfl
      | succ frames =>
          have hitems : walkItems items frames = if Doc.nestingItems 1 items ≤ frames then
              .ok (Doc.mapItems (fun v => (walkScalar v).1) items,
                (Doc.leavesItems items).any fun v => (walkScalar v).2)
              else .error .recursionError := by
            induction items with
            | nil => simp [walkItems, Doc.nestingItems, Doc.mapItems, Doc.leavesItems]
            | cons d rest ihrest =>
                rw [walkItems, ih d List.mem_cons_self,
                  ihrest fun e he => ih e (List.mem_cons_of_mem _ he)]
                simp only [Doc.nestingItems, max_le_iff, Doc.mapItems, Doc.leavesItems, List.any_append]
                by_cases hd : d.height ≤ frames
                · by_cases hrest : Doc.nestingItems 1 rest ≤ frames
                  · simp only [hd, hrest, and_self, if_true]
                    rfl
                  · simp only [hd, hrest, and_false, if_true, if_false]
                    rfl
                · simp only [hd, false_and, if_false]
                  rfl
          rw [walk, hitems]
          simp only [Doc.height, Doc.nesting, Nat.add_le_add_iff_right, Doc.map, Doc.leaves]
          split_ifs <;> rfl
  | object members ih =>
      intro frames
      cases frames with
      | zero => rfl
      | succ frames =>
          have hmembers : walkMembers members frames = if Doc.nestingMembers 1 members ≤ frames then
              .ok (Doc.mapMembers (fun v => (walkScalar v).1) members,
                (Doc.leavesMembers members).any fun v => (walkScalar v).2)
              else .error .recursionError := by
            induction members with
            | nil => simp [walkMembers, Doc.nestingMembers, Doc.mapMembers, Doc.leavesMembers]
            | cons m rest ihrest =>
                rw [walkMembers, ih m List.mem_cons_self,
                  ihrest fun e he => ih e (List.mem_cons_of_mem _ he)]
                simp only [Doc.nestingMembers, max_le_iff, Doc.mapMembers, Doc.leavesMembers,
                  List.any_append]
                by_cases hd : m.2.height ≤ frames
                · by_cases hrest : Doc.nestingMembers 1 rest ≤ frames
                  · simp only [hd, hrest, and_self, if_true]
                    rfl
                  · simp only [hd, hrest, and_false, if_true, if_false]
                    rfl
                · simp only [hd, false_and, if_false]
                  rfl
          rw [walk, hmembers]
          simp only [Doc.height, Doc.nesting, Nat.add_le_add_iff_right, Doc.map, Doc.leaves]
          split_ifs <;> rfl

/-! ## The prefilter -/

theorem ofDigitChars_append_digits (digits : List Char) (acc : ℕ) :
    Nat.ofDigitChars 10 digits acc = acc * 10 ^ digits.length + Nat.ofDigitChars 10 digits 0 := by
  induction digits generalizing acc with
  | nil => simp
  | cons c rest ih =>
      rw [Nat.ofDigitChars_cons, Nat.ofDigitChars_cons, ih, ih (10 * 0 + _), List.length_cons, pow_succ]
      ring

theorem ofDigitChars_lt {digits : List Char} (h : ∀ c ∈ digits, c.isDigit = true) :
    Nat.ofDigitChars 10 digits 0 < 10 ^ digits.length := by
  induction digits with
  | nil => simp
  | cons c rest ih =>
      have hc := h c List.mem_cons_self
      have hle : c.toNat - 48 ≤ 9 := by
        simp only [Char.isDigit, Bool.and_eq_true, decide_eq_true_eq] at hc
        have htop : c.toNat ≤ 57 := UInt32.le_iff_toNat_le.1 hc.2
        omega
      have hrest := ih fun d hd => h d (List.mem_cons_of_mem _ hd)
      rw [Nat.ofDigitChars_cons, ofDigitChars_append_digits, List.length_cons, pow_succ]
      have hdigit : 10 * 0 + (c.toNat - '0'.toNat) ≤ 9 := by simpa using hle
      nlinarith [Nat.mul_le_mul_right (10 ^ rest.length) hdigit]

/-- The digits of the window: 19 that begin with a nine, or 20 that begin with a one. -/
theorem digits_of_unshreddable {digits : List Char} (hdigits : ∀ c ∈ digits, c.isDigit = true)
    (hzero : digits.head? = some '0' → digits = ['0'])
    (h : isUnshreddable (Nat.ofDigitChars 10 digits 0) = true) :
    ∃ c rest, digits = c :: rest ∧ ((c = '9' ∧ rest.length = 18) ∨ (c = '1' ∧ rest.length = 19)) := by
  have hwindow : 9223372036854775807 < Nat.ofDigitChars 10 digits 0 ∧
      Nat.ofDigitChars 10 digits 0 ≤ 18446744073709551615 := by
    have hint := of_decide_eq_true h
    simp only [int64Max, uint64Max] at hint
    exact_mod_cast hint
  cases digits with
  | nil => exact absurd hwindow.1 (by simp)
  | cons c rest =>
      have hc := hdigits c List.mem_cons_self
      simp only [Char.isDigit, Bool.and_eq_true, decide_eq_true_eq] at hc
      have hlow : 48 ≤ c.toNat := UInt32.le_iff_toNat_le.1 hc.1
      have htop : c.toNat ≤ 57 := UInt32.le_iff_toNat_le.1 hc.2
      have hrest := ofDigitChars_lt fun d hd => hdigits d (List.mem_cons_of_mem _ hd)
      have hvalue : Nat.ofDigitChars 10 (c :: rest) 0
          = (c.toNat - 48) * 10 ^ rest.length + Nat.ofDigitChars 10 rest 0 := by
        rw [Nat.ofDigitChars_cons, ofDigitChars_append_digits]
        simp
      have hne : c.toNat ≠ 48 := by
        intro heq
        have hchar : c = '0' := Char.toNat_inj.1 heq
        have hnil := hzero (by rw [hchar]; rfl)
        have hnought : Nat.ofDigitChars 10 ['0'] 0 = 0 := by decide
        rw [hnil, hnought] at hwindow
        omega
      have hback : ∀ d : Char, c.toNat = d.toNat → c = d := fun d => Char.toNat_inj.1
      generalize hd : c.toNat - 48 = d at hvalue
      generalize Nat.ofDigitChars 10 rest 0 = r at hvalue hrest
      rw [hvalue] at hwindow
      have hd1 : 1 ≤ d ∧ d ≤ 9 := by omega
      refine ⟨c, rest, rfl, ?_⟩
      rcases Nat.lt_or_ge rest.length 18 with hshort | hlong
      · have hpow : 10 ^ rest.length ≤ 10 ^ 17 := Nat.pow_le_pow_right (by decide) (by omega)
        have hprod := Nat.mul_le_mul hd1.2 hpow
        omega
      · rcases Nat.lt_or_ge 19 rest.length with hlong' | hshort
        · have hpow : 10 ^ 20 ≤ 10 ^ rest.length := Nat.pow_le_pow_right (by decide) (by omega)
          have hprod := Nat.mul_le_mul hd1.1 hpow
          omega
        · rcases Nat.lt_or_ge 18 rest.length with h19 | h18
          · have hlen : rest.length = 19 := by omega
            rw [hlen] at hwindow
            exact Or.inr ⟨hback '1' (by show c.toNat = 49; omega), hlen⟩
          · have hlen : rest.length = 18 := by omega
            rw [hlen] at hwindow hrest
            exact Or.inl ⟨hback '9' (by show c.toNat = 57; omega), hlen⟩

theorem maybeUnshreddable_of_infix {text : String} {c : Char} {rest : List Char}
    (hoccurs : c :: rest <:+: text.toList) (hdigits : ∀ d ∈ rest, d.isDigit = true)
    (h : (c = '9' ∧ rest.length = 18) ∨ (c = '1' ∧ rest.length = 19)) :
    maybeUnshreddable text = true := by
  obtain ⟨a, b, htext⟩ := hoccurs
  have hlength : rest.length ≤ ((rest ++ b).takeWhile Char.isDigit).length := by
    rw [List.takeWhile_append_of_pos hdigits, List.length_append]
    omega
  refine List.any_eq_true.2 ⟨c :: (rest ++ b), (List.mem_tails _ _).2 ⟨a, ?_⟩, ?_⟩
  · rw [← htext, List.append_assoc, List.cons_append]
  · simp only [matchesDigits, Bool.or_eq_true, Bool.and_eq_true, decide_eq_true_eq]
    rcases h with ⟨hc, hlen⟩ | ⟨hc, hlen⟩
    · exact Or.inl ⟨hc, by omega⟩
    · exact Or.inr ⟨hc, by omega⟩

/-- **The prefilter misses no text with such an integer.** -/
theorem maybeUnshreddable_of_read (hlib : lib.Lawful) {text : String} {doc : Json}
    (hread : lib.read text = some doc) (h : HasUnshreddable doc) : maybeUnshreddable text = true := by
  obtain ⟨lit, hmem, hinteger, hwindow⟩ := h
  have hoccurs := hlib.occurs text doc hread lit hmem hinteger
  have hpositive : lit.negative = false := by
    by_contra hneg
    have hneg' : lit.negative = true := by simpa using hneg
    simp only [isUnshreddable, int64Max, NumberLiteral.intValue, hneg', if_true,
      decide_eq_true_eq] at hwindow
    omega
  have hvalue : lit.intValue = Nat.ofDigitChars 10 lit.whole 0 := by
    rw [NumberLiteral.intValue, hpositive]
    rfl
  rw [hvalue] at hwindow
  have hdigits := List.all_eq_true.1 lit.whole_digits
  obtain ⟨c, rest, hwhole, hshape⟩ := digits_of_unshreddable hdigits lit.no_leading_zero hwindow
  have htext : lit.text = c :: rest := by
    rw [NumberLiteral.text, hpositive, hwhole]
    rfl
  rw [htext] at hoccurs
  refine maybeUnshreddable_of_infix hoccurs (fun d hd => hdigits d ?_) hshape
  rw [hwhole]
  exact List.mem_cons_of_mem _ hd

/-! ## One scalar through the rewriting -/

theorem NumberLiteral.value_of_isInteger {lit : NumberLiteral} (h : lit.isInteger = true) :
    lit.value = lit.intValue := by
  rw [NumberLiteral.isInteger, Bool.and_eq_true, Option.isNone_iff_eq_none,
    Option.isNone_iff_eq_none] at h
  obtain ⟨hfraction, hexponent⟩ := h
  rw [NumberLiteral.value, NumberLiteral.intValue, hfraction, hexponent]
  cases lit.negative <;> simp

theorem intValue_intLiteral (n : ℤ) : (intLiteral n).intValue = n := by
  have hdigits : Nat.ofDigitChars 10 (Nat.toDigits 10 n.natAbs) 0 = n.natAbs :=
    Nat.ofDigitChars_toDigits (by decide) (by decide)
  simp only [NumberLiteral.intValue, intLiteral, hdigits, decide_eq_true_eq]
  split_ifs <;> omega

/-- Every integer of the window is read as an integer. -/
theorem isInt_of_isUnshreddable {lit : NumberLiteral} (hinteger : lit.isInteger = true)
    (h : isUnshreddable lit.intValue = true) : Orjson.isInt lit = true := by
  have hwindow := of_decide_eq_true h
  simp only [int64Max, uint64Max] at hwindow
  rw [Orjson.isInt, hinteger, Bool.true_and, decide_eq_true_eq]
  omega

/-- A scalar of the rewritten document. -/
def coercedScalar (lib : Orjson F) (s : JsonScalar) : JsonScalar :=
  lib.writtenScalar (walkScalar (lib.loadScalar s)).1

theorem changes_iff {s : JsonScalar} : (walkScalar (lib.loadScalar s)).2 = true ↔
    ∃ lit, s = .number lit ∧ lit.isInteger = true ∧ isUnshreddable lit.intValue = true := by
  constructor
  · intro h
    cases s with
    | null | bool | string => cases h
    | number lit =>
        by_cases hint : Orjson.isInt lit = true
        · by_cases hwindow : isUnshreddable lit.intValue = true
          · exact ⟨lit, rfl, (Bool.and_eq_true _ _ ▸ hint).1, hwindow⟩
          · simp [Orjson.loadScalar, hint, walkScalar, hwindow] at h
        · simp [Orjson.loadScalar, hint, walkScalar] at h
  · rintro ⟨lit, rfl, hinteger, hwindow⟩
    simp [Orjson.loadScalar, isInt_of_isUnshreddable hinteger hwindow, walkScalar, hwindow]

theorem rewrittenScalar_of_not {s : JsonScalar}
    (h : ¬ ∃ lit, s = .number lit ∧ lit.isInteger = true ∧ isUnshreddable lit.intValue = true) :
    rewrittenScalar s = s := by
  cases s with
  | null | bool | string => rfl
  | number lit =>
      rw [rewrittenScalar, if_neg]
      exact fun hboth => h ⟨lit, rfl, (Bool.and_eq_true _ _ ▸ hboth).1, (Bool.and_eq_true _ _ ▸ hboth).2⟩

theorem SameValue.refl (s : JsonScalar) : SameValue s s := by
  cases s <;> rfl

/-- Only floats can come back as another value. -/
theorem sameValue_coerced_iff {s : JsonScalar} : SameValue (rewrittenScalar s) (coercedScalar lib s) ↔
    ∀ lit, s = .number lit → Orjson.isInt lit = false →
      (lib.printed (lib.toFloat lit)).value = lit.value := by
  cases s with
  | null | bool | string =>
      exact iff_of_true rfl fun lit hlit => JsonScalar.noConfusion hlit
  | number lit =>
      cases hint : Orjson.isInt lit with
      | true =>
          have hinteger : lit.isInteger = true := (Bool.and_eq_true _ _ ▸ hint).1
          refine iff_of_true ?_ fun lit' hlit hfloat => ?_
          · by_cases hwindow : isUnshreddable lit.intValue = true
            · simp [rewrittenScalar, coercedScalar, Orjson.loadScalar, hint, hinteger, hwindow,
                walkScalar, Orjson.writtenScalar, SameValue]
            · have hvalue : lit.value = (intLiteral lit.intValue).value := by
                rw [NumberLiteral.value_of_isInteger hinteger,
                  NumberLiteral.value_of_isInteger (by rfl), intValue_intLiteral]
              simpa [rewrittenScalar, coercedScalar, Orjson.loadScalar, hint, hinteger, hwindow,
                walkScalar, Orjson.writtenScalar, SameValue] using hvalue
          · rw [JsonScalar.number.inj hlit, hfloat] at hint
            cases hint
      | false =>
          have hno : (lit.isInteger && isUnshreddable lit.intValue) = false := by
            by_contra hboth
            rw [Bool.not_eq_false, Bool.and_eq_true] at hboth
            rw [isInt_of_isUnshreddable hboth.1 hboth.2] at hint
            cases hint
          have hsame : SameValue (rewrittenScalar (.number lit)) (coercedScalar lib (.number lit)) ↔
              lit.value = (lib.printed (lib.toFloat lit)).value := by
            simp [rewrittenScalar, coercedScalar, Orjson.loadScalar, hint, hno, walkScalar,
              Orjson.writtenScalar, SameValue]
          rw [hsame]
          refine ⟨fun h lit' hlit _ => ?_, fun h => (h lit rfl hint).symm⟩
          rw [← JsonScalar.number.inj hlit]
          exact h.symm

/-- What is written is out of the window. -/
theorem coerced_shreddable (hlib : lib.Lawful) (s : JsonScalar) :
    ¬ ∃ lit, coercedScalar lib s = .number lit ∧ lit.isInteger = true ∧
      isUnshreddable lit.intValue = true := by
  rintro ⟨lit', heq, hinteger, hwindow⟩
  cases s with
  | null | bool | string => cases heq
  | number lit =>
      cases hint : Orjson.isInt lit with
      | false =>
          simp only [coercedScalar, Orjson.loadScalar, hint, Bool.false_eq_true, if_false, walkScalar,
            Orjson.writtenScalar, JsonScalar.number.injEq] at heq
          rw [← heq, hlib.printed_float] at hinteger
          cases hinteger
      | true =>
          cases hlit : isUnshreddable lit.intValue with
          | true =>
              simp [coercedScalar, Orjson.loadScalar, hint, walkScalar, hlit, Orjson.writtenScalar] at heq
          | false =>
              simp only [coercedScalar, Orjson.loadScalar, hint, if_true, walkScalar, hlit,
                Bool.false_eq_true, if_false, Orjson.writtenScalar, JsonScalar.number.injEq] at heq
              rw [← heq, intValue_intLiteral, hlit] at hwindow
              cases hwindow

/-! ## One text -/

theorem changed_iff {doc : Json} : ((doc.map lib.loadScalar).leaves.any fun v => (walkScalar v).2) = true ↔
    HasUnshreddable doc := by
  rw [Doc.leaves_map, List.any_map, List.any_eq_true]
  constructor
  · rintro ⟨s, hs, hchanges⟩
    obtain ⟨lit, rfl, hinteger, hwindow⟩ := changes_iff.1 hchanges
    exact ⟨lit, hs, hinteger, hwindow⟩
  · rintro ⟨lit, hs, hinteger, hwindow⟩
    exact ⟨.number lit, hs, changes_iff.2 ⟨lit, rfl, hinteger, hwindow⟩⟩

theorem loads_of_read {doc : Json} (h : raw.bind lib.read = some doc) :
    raw.bind lib.loads = some (doc.collapse.map lib.loadScalar) := by
  obtain ⟨text, rfl, hread⟩ := Option.bind_eq_some_iff.1 h
  simp [Orjson.loads, hread]

theorem walk_loaded {doc : Json} (hframes : doc.height ≤ frames) :
    walk (doc.map lib.loadScalar) frames = .ok ((doc.map lib.loadScalar).map fun v => (walkScalar v).1,
      (doc.map lib.loadScalar).leaves.any fun v => (walkScalar v).2) := by
  rw [walk_eq, if_pos ((Doc.nesting_map _ _ _).trans_le hframes)]

theorem written_eq (doc : Json) :
    ((doc.map lib.loadScalar).map fun v => (walkScalar v).1).map lib.writtenScalar
      = doc.map (coercedScalar lib) := by
  rw [Doc.map_map, Doc.map_map]
  rfl

theorem coerce_unread (h : raw.bind lib.read = none) :
    coerceUnshreddableInts lib frames raw = .ok .same := by
  have hloads : raw.bind lib.loads = none := by
    cases raw with
    | none => rfl
    | some text =>
        have hread : lib.read text = none := h
        simp [Orjson.loads, hread]
  rw [coerceUnshreddableInts, hloads]

theorem coerce_deep {doc : Json} (h : raw.bind lib.read = some doc) (hframes : frames < doc.collapse.height) :
    coerceUnshreddableInts lib frames raw = .error .recursionError := by
  have hwalk : walk (doc.collapse.map lib.loadScalar) frames = .error .recursionError := by
    rw [walk_eq, if_neg]
    exact not_le.2 (hframes.trans_eq (Doc.nesting_map _ _ _).symm)
  rw [coerceUnshreddableInts, loads_of_read h]
  simp only [hwalk]

theorem coerce_same {doc : Json} (h : raw.bind lib.read = some doc)
    (hframes : doc.collapse.height ≤ frames) (hno : ¬ HasUnshreddable doc.collapse) :
    coerceUnshreddableInts lib frames raw = .ok .same := by
  rw [coerceUnshreddableInts, loads_of_read h]
  simp only [walk_loaded hframes, Bool.eq_false_iff.2 (mt changed_iff.1 hno), Bool.not_false, if_true]

theorem coerce_refuses {doc : Json} (h : raw.bind lib.read = some doc)
    (hframes : doc.collapse.height ≤ frames) (hhas : HasUnshreddable doc.collapse)
    (hdepth : 254 < doc.collapse.depth) :
    coerceUnshreddableInts lib frames raw = .error .jsonEncodeError := by
  rw [coerceUnshreddableInts, loads_of_read h]
  simp only [walk_loaded hframes, changed_iff.2 hhas, Bool.not_true, Bool.false_eq_true, if_false,
    Orjson.dumps, Doc.depth, Doc.nesting_map, hdepth, if_true]

theorem coerce_rewrites {doc : Json} (h : raw.bind lib.read = some doc)
    (hframes : doc.collapse.height ≤ frames) (hhas : HasUnshreddable doc.collapse)
    (hdepth : doc.collapse.depth ≤ 254) : coerceUnshreddableInts lib frames raw
      = .ok (.rewritten (lib.render (doc.collapse.map (coercedScalar lib)))) := by
  rw [coerceUnshreddableInts, loads_of_read h]
  simp only [walk_loaded hframes, changed_iff.2 hhas, Bool.not_true, Bool.false_eq_true, if_false,
    Orjson.dumps, Doc.depth, Doc.nesting_map, not_lt.2 hdepth, written_eq]

/-- The rewritten text is read as the rewritten document. -/
theorem read_rewritten (hlib : lib.Lawful) {doc : Json} (h : raw.bind lib.read = some doc)
    (hdepth : doc.collapse.depth ≤ 254) :
    lib.read (lib.render (doc.collapse.map (coercedScalar lib)))
      = some (doc.collapse.map (coercedScalar lib)) := by
  obtain ⟨text, rfl, hread⟩ := Option.bind_eq_some_iff.1 h
  have hloads : lib.loads text = some (doc.collapse.map lib.loadScalar) := loads_of_read h
  rw [← written_eq]
  exact hlib.reads_back text _ hloads ((Doc.nesting_map _ _ _).trans_le hdepth)

theorem not_hasUnshreddable_coerced (hlib : lib.Lawful) (doc : Json) :
    ¬ HasUnshreddable (doc.map (coercedScalar lib)) := by
  rintro ⟨lit, hmem, hinteger, hwindow⟩
  rw [Doc.leaves_map] at hmem
  obtain ⟨s, _, hs⟩ := List.mem_map.1 hmem
  exact coerced_shreddable hlib s ⟨lit, hs, hinteger, hwindow⟩

theorem HasUnshreddable.of_collapse {doc : Json} (h : HasUnshreddable doc.collapse) :
    HasUnshreddable doc := by
  obtain ⟨lit, hmem, hwindow⟩ := h
  exact ⟨lit, Doc.leaves_collapse_subset doc hmem, hwindow⟩

/-! ## When it holds -/

theorem sanitizes_of_unread (h : raw.bind lib.read = none) : Sanitizes lib frames raw := by
  have hsame : coerceUnshreddableInts lib frames raw = .ok .same := coerce_unread h
  have hresult : ∀ r, coerceUnshreddableInts lib frames raw = .ok r → r = .same :=
    fun r hr => (Except.ok.inj (hsame.symm.trans hr)).symm
  have hunread : ∀ text doc, raw = some text → lib.read text ≠ some doc := by
    rintro text doc rfl hread
    exact Option.some_ne_none doc (hread.symm.trans h)
  refine ⟨fun text doc hraw hread => absurd hread (hunread text doc hraw), ⟨.same, hsame⟩, ?_, ?_,
    fun _ => hresult, ?_⟩
  · intro r text doc hr hvalue hread
    rw [hresult r hr] at hvalue
    exact absurd hread (hunread text doc hvalue)
  · intro r doc _ hread
    exact absurd (hread.symm.trans h) (Option.some_ne_none doc)
  · intro r hr
    rw [hresult r hr]
    exact hsame

/-- A document without such an integer is returned as it is. -/
theorem sanitizes_of_not {text : String} {doc : Json} (hread : lib.read text = some doc)
    (hframes : doc.collapse.height ≤ frames) (hno : ¬ HasUnshreddable doc) :
    Sanitizes lib frames (some text) := by
  have hsame : coerceUnshreddableInts lib frames (some text) = .ok .same :=
    coerce_same hread hframes (mt HasUnshreddable.of_collapse hno)
  have hresult : ∀ r, coerceUnshreddableInts lib frames (some text) = .ok r → r = .same :=
    fun r hr => (Except.ok.inj (hsame.symm.trans hr)).symm
  have honly : ∀ text' doc', some text = some text' → lib.read text' = some doc' → doc' = doc := by
    intro text' doc' htext hread'
    rw [← Option.some.inj htext] at hread'
    exact Option.some.inj (hread'.symm.trans hread)
  refine ⟨?_, ⟨.same, hsame⟩, ?_, ?_, fun _ => hresult, ?_⟩
  · intro text' doc' htext hread' hhas
    exact absurd (honly text' doc' htext hread' ▸ hhas) hno
  · intro r text' doc' hr hvalue hread'
    rw [hresult r hr] at hvalue
    exact honly text' doc' hvalue hread' ▸ hno
  · intro r doc' hr hdoc
    have hdoc' : doc' = doc := honly text doc' rfl hdoc
    refine ⟨text, doc, by rw [hresult r hr]; rfl, hread, ?_⟩
    have hscalars : Doc.Rel SameValue (doc.map rewrittenScalar) (doc.map id) := by
      refine Doc.rel_map.2 fun s hs => ?_
      rw [rewrittenScalar_of_not]
      · exact SameValue.refl s
      · rintro ⟨lit, rfl, hwindow⟩
        exact hno ⟨lit, hs, hwindow⟩
    rw [Doc.map_id] at hscalars
    exact hdoc' ▸ hscalars
  · intro r hr
    rw [hresult r hr]
    exact hsame

/-- A document with such an integer, in the range of `orjson`. -/
theorem sanitizes_of_has (hlib : lib.Lawful) {text : String} {doc : Json}
    (hread : lib.read text = some doc) (hfits : Fits lib frames doc) (hhas : HasUnshreddable doc) :
    Sanitizes lib frames (some text) := by
  have hself : doc.collapse = doc := Doc.collapse_eq_self (hfits.keys hhas)
  have hdepth := hfits.nesting hhas
  have hframes := hfits.frames
  have hdoc : (some text).bind lib.read = some doc := hread
  have hrewrites := coerce_rewrites hdoc hframes (hself.symm ▸ hhas) (hself.symm ▸ hdepth)
  have hback := read_rewritten hlib hdoc (hself.symm ▸ hdepth)
  rw [hself] at hrewrites hback hframes
  have hresult : ∀ r, coerceUnshreddableInts lib frames (some text) = .ok r →
      r = .rewritten (lib.render (doc.map (coercedScalar lib))) :=
    fun r hr => (Except.ok.inj (hrewrites.symm.trans hr)).symm
  refine ⟨?_, ⟨_, hrewrites⟩, ?_, ?_, fun hclean => absurd hhas (hclean doc hread), ?_⟩
  · intro text' doc' htext hread' hhas'
    rw [← Option.some.inj htext] at hread' ⊢
    exact maybeUnshreddable_of_read hlib hread' hhas'
  · intro r text' doc' hr hvalue hread'
    rw [hresult r hr] at hvalue
    rw [← Option.some.inj hvalue, hback] at hread'
    exact Option.some.inj hread' ▸ not_hasUnshreddable_coerced hlib doc
  · intro r doc' hr hdoc
    have hdoc' : doc = doc' := Option.some.inj (hread.symm.trans hdoc)
    refine ⟨_, _, by rw [hresult r hr]; rfl, hback, hdoc' ▸ Doc.rel_map.2 fun s hs => ?_⟩
    refine sameValue_coerced_iff.2 fun lit hlit hfloat => ?_
    exact hfits.floats hhas lit (hlit ▸ hs) hfloat
  · intro r hr
    rw [hresult r hr]
    have hunique : (doc.map (coercedScalar lib)).UniqueKeys :=
      Doc.uniqueKeys_map.2 (hfits.keys hhas)
    refine coerce_same hback ?_ ?_
    · rw [Doc.collapse_eq_self hunique, Doc.height, Doc.nesting_map]
      exact hframes
    · exact fun h => not_hasUnshreddable_coerced hlib doc h.of_collapse

theorem Sanitizes.fits (hlib : lib.Lawful) (h : Sanitizes lib frames raw) {doc : Json}
    (hread : raw.bind lib.read = some doc) : Fits lib frames doc := by
  obtain ⟨r, hr⟩ := h.runs
  have hframes : doc.collapse.height ≤ frames := by
    by_contra hdeep
    rw [coerce_deep hread (not_le.1 hdeep)] at hr
    cases hr
  -- an integer that a dict drops is still in the text
  have hkept : HasUnshreddable doc → HasUnshreddable doc.collapse := by
    intro hhas
    by_contra hno
    obtain ⟨text, hraw, hdoc⟩ := Option.bind_eq_some_iff.1 hread
    exact h.clean .same text doc (coerce_same hread hframes hno) hraw hdoc hhas
  have hdepth : HasUnshreddable doc → doc.collapse.depth ≤ 254 := by
    intro hhas
    by_contra hdeep
    rw [coerce_refuses hread hframes (hkept hhas) (not_le.1 hdeep)] at hr
    cases hr
  have hrel : HasUnshreddable doc →
      Doc.Rel SameValue (doc.map rewrittenScalar) (doc.collapse.map (coercedScalar lib)) := by
    intro hhas
    have hback := read_rewritten hlib hread (hdepth hhas)
    obtain ⟨text, doc', hvalue, hread', hrel⟩ :=
      h.kept _ doc (coerce_rewrites hread hframes (hkept hhas) (hdepth hhas)) hread
    rw [← Option.some.inj hvalue, hback] at hread'
    exact Option.some.inj hread' ▸ hrel
  have hkeys : HasUnshreddable doc → doc.UniqueKeys := fun hhas =>
    Doc.uniqueKeys_map.1 ((hrel hhas).uniqueKeys.2 (Doc.uniqueKeys_map.2 (Doc.uniqueKeys_collapse doc)))
  refine ⟨hframes, hkeys, fun hhas => ?_, fun hhas lit hmem hfloat => ?_⟩
  · have hle := hdepth hhas
    rwa [Doc.collapse_eq_self (hkeys hhas)] at hle
  · have hscalars := hrel hhas
    rw [Doc.collapse_eq_self (hkeys hhas)] at hscalars
    exact sameValue_coerced_iff.1 (Doc.rel_map.1 hscalars _ hmem) lit rfl hfloat

/-- **One text is sanitized as documented, if and only if the document fits what `orjson` and the
interpreter do to it.** -/
theorem coerceUnshreddableInts_iff (hlib : lib.Lawful) : Sanitizes lib frames raw ↔
    ∀ doc, raw.bind lib.read = some doc → Fits lib frames doc := by
  constructor
  · exact fun h doc hread => h.fits hlib hread
  · intro h
    cases hread : raw.bind lib.read with
    | none => exact sanitizes_of_unread hread
    | some doc =>
        obtain ⟨text, rfl, hdoc⟩ := Option.bind_eq_some_iff.1 hread
        by_cases hhas : HasUnshreddable doc
        · exact sanitizes_of_has hlib hdoc (h doc hread) hhas
        · exact sanitizes_of_not hdoc (h doc hread).frames hhas

/-! ## A column -/

/-- What one row becomes. -/
def Coerced (lib : Orjson F) (frames : ℕ) (raw out : Option String) : Prop :=
  ∃ r, coerceUnshreddableInts lib frames raw = .ok r ∧ out = r.value raw

theorem coerced_zipWith {values : List (Option String)} {fixed : List Returned}
    (h : List.Forall₂ (fun raw r => coerceUnshreddableInts lib frames raw = .ok r) values fixed) :
    List.Forall₂ (Coerced lib frames) values (List.zipWith Returned.value values fixed) := by
  induction h with
  | nil => exact .nil
  | cons hr _ ih => exact .cons ⟨_, hr, rfl⟩ ih

theorem zipWith_same {R : Option String → Returned → Prop} {values : List (Option String)}
    {fixed : List Returned} (h : List.Forall₂ R values fixed) (hsame : fixed.all (· = .same) = true) :
    List.zipWith Returned.value values fixed = values := by
  induction h with
  | nil => rfl
  | cons _ _ ih =>
      rw [List.all_cons, Bool.and_eq_true, decide_eq_true_eq] at hsame
      rw [List.zipWith_cons_cons, ih hsame.2, hsame.1]
      rfl

/-- **The prefilter cannot be seen: the column that the VARIANT projection reads is the column of the
rewritten texts.** -/
theorem sanitizeColumn_coerced {values : List (Option String)}
    (h : ∀ raw ∈ values, Sanitizes lib frames raw) : ∃ hidden,
    sanitizeColumn lib frames values = .ok hidden ∧
      List.Forall₂ (Coerced lib frames) values (hidden.getD values) := by
  by_cases hflagged : (values.any fun raw => raw.any maybeUnshreddable) = true
  · obtain ⟨fixed, hfixed⟩ : ∃ fixed, values.mapM (coerceUnshreddableInts lib frames) = .ok fixed := by
      obtain ⟨fixed, hfixed, _⟩ := mapM_of_forall (Q := fun _ _ => True) fun raw hraw =>
        ((h raw hraw).runs).imp fun r hr => ⟨hr, trivial⟩
      exact ⟨fixed, hfixed⟩
    have hrows := mapM_eq_ok_iff.1 hfixed
    refine ⟨_, by rw [sanitizeColumn, if_pos hflagged, hfixed]; rfl, ?_⟩
    by_cases hsame : fixed.all (· = .same) = true
    · have hall := coerced_zipWith hrows
      rw [zipWith_same hrows hsame] at hall
      rw [if_pos hsame]
      exact hall
    · rw [if_neg hsame]
      exact coerced_zipWith hrows
  · refine ⟨none, by rw [sanitizeColumn, if_neg hflagged]; rfl, List.forall₂_same.2 fun raw hraw => ?_⟩
    obtain ⟨r, hr⟩ := (h raw hraw).runs
    have hsame : r = .same := by
      refine (h raw hraw).same (fun doc hread hhas => ?_) r hr
      obtain ⟨text, rfl, hdoc⟩ := Option.bind_eq_some_iff.1 hread
      have hfires := (h _ hraw).flagged text doc rfl hdoc hhas
      exact hflagged (List.any_eq_true.2 ⟨some text, hraw, hfires⟩)
    exact ⟨r, hr, by rw [hsame]; rfl⟩

/-! ## On two texts -/

/-- 2^64, as it is written and as its float is printed. -/
def tooLarge : NumberLiteral := intLiteral 18446744073709551616

def tooLargePrinted : NumberLiteral where
  negative := false
  whole := ['1']
  fraction := some "8446744073709552".toList
  exponent := some 19
  whole_ne_nil := by decide
  whole_digits := by decide
  no_leading_zero := by decide

/-- `orjson` on `[18446744073709551615]`, on this with 2^64 behind it, and on what it writes of both. -/
def orjsonOfWindow : Orjson Unit where
  read
    | "[18446744073709551615]" => some (.array [.scalar (.number (intLiteral uint64Max))])
    | "[\"18446744073709551615\"]" => some (.array [.scalar (.string "18446744073709551615")])
    | "[18446744073709551615,18446744073709551616]" =>
        some (.array [.scalar (.number (intLiteral uint64Max)), .scalar (.number tooLarge)])
    | "[\"18446744073709551615\",1.8446744073709552e19]" =>
        some (.array [.scalar (.string "18446744073709551615"), .scalar (.number tooLargePrinted)])
    | _ => none
  toFloat _ := ()
  printed _ := tooLargePrinted
  render
    | .array [_] => "[\"18446744073709551615\"]"
    | _ => "[\"18446744073709551615\",1.8446744073709552e19]"

theorem orjsonOfWindow_lawful : orjsonOfWindow.Lawful where
  occurs := by
    intro text doc hread lit hmem hinteger
    simp only [orjsonOfWindow] at hread
    split at hread
    · cases hread
      rcases List.mem_singleton.1 hmem with ⟨rfl⟩
      exact of_decide_eq_true rfl
    · cases hread
      rcases List.mem_singleton.1 hmem with ⟨⟩
    · cases hread
      rcases List.mem_pair.1 hmem with h | h
      · rw [JsonScalar.number.inj h]
        exact of_decide_eq_true rfl
      · rw [JsonScalar.number.inj h]
        exact of_decide_eq_true rfl
    · cases hread
      rcases List.mem_pair.1 hmem with h | h
      · cases h
      · rw [JsonScalar.number.inj h] at hinteger
        cases hinteger
    · cases hread
  printed_float _ := rfl
  reads_back := by
    intro text obj hloads hdepth
    simp only [orjsonOfWindow, Orjson.loads] at hloads
    split at hloads
    · cases hloads
      rfl
    · cases hloads
      rfl
    · cases hloads
      rfl
    · cases hloads
      rfl
    · cases hloads

theorem hasUnshreddable_of_mem {doc : Json} (h : .number (intLiteral uint64Max) ∈ doc.leaves) :
    HasUnshreddable doc :=
  ⟨_, h, rfl, by rw [intValue_intLiteral]; rfl⟩

theorem coerceUnshreddableInts_iff_largest :
    Sanitizes orjsonOfWindow 1000 (some "[18446744073709551615]") := by
  refine (coerceUnshreddableInts_iff orjsonOfWindow_lawful).2 fun doc hread => ?_
  cases hread
  refine ⟨by decide, fun _ => ⟨trivial, trivial⟩, fun _ => by decide, fun _ lit hmem hfloat => ?_⟩
  rcases List.mem_singleton.1 hmem with ⟨rfl⟩
  cases hfloat

theorem tooLargePrinted_value : tooLargePrinted.value ≠ tooLarge.value := by
  have hprinted : Nat.ofDigitChars 10 (tooLargePrinted.whole ++ tooLargePrinted.fraction.getD []) 0
      = 18446744073709552 := by decide
  have hplaces : (tooLargePrinted.fraction.getD []).length = 16 := rfl
  have hlarge : tooLarge.value = tooLarge.intValue := NumberLiteral.value_of_isInteger rfl
  rw [hlarge, tooLarge, intValue_intLiteral, NumberLiteral.value, hprinted, hplaces]
  norm_num [tooLargePrinted]

/-- 2^64 beside such an integer comes out as 18446744073709552000. -/
theorem neighbour_changed : ¬ Sanitizes orjsonOfWindow 1000
    (some "[18446744073709551615,18446744073709551616]") := by
  intro h
  have hfits := h.fits orjsonOfWindow_lawful rfl
  have hmem : .number tooLarge ∈ [JsonScalar.number (intLiteral uint64Max), .number tooLarge] :=
    List.mem_cons_of_mem _ List.mem_cons_self
  exact tooLargePrinted_value (hfits.floats (hasUnshreddable_of_mem List.mem_cons_self) tooLarge hmem rfl)

end Millpond.Ducklake
