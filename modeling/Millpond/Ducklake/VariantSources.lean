import Millpond.Lib.Documents
import Mathlib.Tactic

set_option autoImplicit false

/-! # Sources of VARIANT columns

DuckDB cannot shred integers beyond INT64 that fit UINT64. `sanitize_variant_sources` scans a column
of JSON texts for their digits, and `_coerce_unshreddable_ints` parses a text, rewrites those integers
as strings and serializes the document again. The parser and the serializer are `orjson`'s; what it
makes of numbers, keys and nesting is said here. -/

namespace Millpond.Ducklake

/-! ## JSON -/

/-- A JSON number as it is written. -/
structure NumberLiteral where
  negative : Bool
  whole : List Char
  /-- The digits behind the point, if there is one. -/
  fraction : Option (List Char)
  exponent : Option ℤ
  whole_ne_nil : whole ≠ []
  whole_digits : whole.all Char.isDigit = true
  no_leading_zero : whole.head? = some '0' → whole = ['0']

namespace NumberLiteral

def isInteger (lit : NumberLiteral) : Bool := lit.fraction.isNone && lit.exponent.isNone

/-- The integer of an integer literal. -/
def intValue (lit : NumberLiteral) : ℤ :=
  if lit.negative then -(Nat.ofDigitChars 10 lit.whole 0 : ℤ) else Nat.ofDigitChars 10 lit.whole 0

/-- The number that is written. -/
def value (lit : NumberLiteral) : ℚ :=
  (if lit.negative then -1 else 1) *
    (Nat.ofDigitChars 10 (lit.whole ++ lit.fraction.getD []) 0 : ℚ) /
      10 ^ (lit.fraction.getD []).length * 10 ^ (lit.exponent.getD 0)

/-- The text of an integer literal. -/
def text (lit : NumberLiteral) : List Char :=
  (if lit.negative then ['-'] else []) ++ lit.whole

end NumberLiteral

inductive JsonScalar where
  | null
  | bool (b : Bool)
  | number (lit : NumberLiteral)
  | string (s : String)

abbrev Json := Doc JsonScalar

/-! ## orjson -/

/-- Scalars as Python values; `F` are the floats. -/
inductive PyScalar (F : Type) where
  | none
  | bool (b : Bool)
  | int (n : ℤ)
  | float (x : F)
  | str (s : String)

/-- The parts of `orjson` that are its own. -/
structure Orjson (F : Type) where
  /-- The document that a text is; `none` for what `loads` refuses: no JSON, a number beyond the
      floats, or nesting above 1024. -/
  read : String → Option Json
  toFloat : NumberLiteral → F
  /-- How `dumps` prints a float. -/
  printed : F → NumberLiteral
  /-- How `dumps` writes a document. -/
  render : Json → String

theorem head_toDigits {n : ℕ} (h : 0 < n) : (Nat.toDigits 10 n).head? ≠ some '0' := by
  induction n using Nat.strong_induction_on with
  | _ n ih =>
      by_cases hlt : n < 10
      · have hall : ∀ k < 10, 0 < k → k.digitChar ≠ '0' := by decide
        rw [Nat.toDigits_of_lt_base hlt, List.head?_cons]
        exact fun heq => hall n hlt h (Option.some.inj heq)
      · have hquot : 0 < n / 10 := Nat.div_pos (not_lt.1 hlt) (by decide)
        rw [Nat.toDigits_of_base_le (by decide) (not_lt.1 hlt), List.head?_append_of_ne_nil _ Nat.toDigits_ne_nil]
        exact ih (n / 10) (Nat.div_lt_self h (by decide)) hquot

/-- `str(n)` as a literal. -/
def intLiteral (n : ℤ) : NumberLiteral where
  negative := decide (n < 0)
  whole := Nat.toDigits 10 n.natAbs
  fraction := none
  exponent := none
  whole_ne_nil := Nat.toDigits_ne_nil
  whole_digits := List.all_eq_true.2 fun _ hc => Nat.isDigit_of_mem_toDigits (by decide) (by decide) hc
  no_leading_zero := by
    intro hhead
    rcases Nat.eq_zero_or_pos n.natAbs with hzero | hpos
    · rw [hzero]
      rfl
    · exact absurd hhead (head_toDigits hpos)

variable {F : Type}

namespace Orjson

variable (lib : Orjson F)

/-- An integer literal within 64 bits, signed or not. -/
def isInt (lit : NumberLiteral) : Bool :=
  lit.isInteger && decide (-9223372036854775808 ≤ lit.intValue ∧ lit.intValue ≤ 18446744073709551615)

def loadScalar : JsonScalar → PyScalar F
  | .null => .none
  | .bool b => .bool b
  | .number lit => if isInt lit then .int lit.intValue else .float (lib.toFloat lit)
  | .string s => .str s

/-- `orjson.loads`, `none` for its `JSONDecodeError`. Objects are dicts. -/
def loads (raw : String) : Option (Doc (PyScalar F)) :=
  (lib.read raw).map fun doc => doc.collapse.map lib.loadScalar

def writtenScalar : PyScalar F → JsonScalar
  | .none => .null
  | .bool b => .bool b
  | .int n => .number (intLiteral n)
  | .float x => .number (lib.printed x)
  | .str s => .string s

/-- `orjson.dumps`, `none` for its `JSONEncodeError`. -/
def dumps (obj : Doc (PyScalar F)) : Option String :=
  if 254 < obj.depth then none else some (lib.render (obj.map lib.writtenScalar))

end Orjson

/-! ## The rewriting -/

/-- `_INT64_MAX`. -/
def int64Max : ℤ := 9223372036854775807

/-- `_UINT64_MAX`. -/
def uint64Max : ℤ := 18446744073709551615

/-- `_INT64_MAX < node <= _UINT64_MAX`. -/
def isUnshreddable (n : ℤ) : Bool := int64Max < n ∧ n ≤ uint64Max

inductive PyError where
  | recursionError
  | jsonEncodeError
deriving DecidableEq, Repr

/-- What `walk` makes of a scalar, and whether it sets `changed`. -/
def walkScalar : PyScalar F → PyScalar F × Bool
  | .int n => if isUnshreddable n then (.str (toString n), true) else (.int n, false)
  | value => (value, false)

mutual

/-- `walk`, with as many calls as the interpreter has frames left. -/
def walk : Doc (PyScalar F) → ℕ → Except PyError (Doc (PyScalar F) × Bool)
  | _, 0 => .error .recursionError
  | .scalar value, _ + 1 => .ok (.scalar (walkScalar value).1, (walkScalar value).2)
  | .array items, frames + 1 => do
      let (items, changed) ← walkItems items frames
      pure (.array items, changed)
  | .object members, frames + 1 => do
      let (members, changed) ← walkMembers members frames
      pure (.object members, changed)

def walkItems : List (Doc (PyScalar F)) → ℕ → Except PyError (List (Doc (PyScalar F)) × Bool)
  | [], _ => .ok ([], false)
  | d :: rest, frames => do
      let (d, changed) ← walk d frames
      let (rest, changedRest) ← walkItems rest frames
      pure (d :: rest, changed || changedRest)

def walkMembers : List (String × Doc (PyScalar F)) → ℕ →
    Except PyError (List (String × Doc (PyScalar F)) × Bool)
  | [], _ => .ok ([], false)
  | (key, d) :: rest, frames => do
      let (d, changed) ← walk d frames
      let (rest, changedRest) ← walkMembers rest frames
      pure ((key, d) :: rest, changed || changedRest)

end

/-- The object that is returned: the argument itself, or a new text. -/
inductive Returned where
  | same
  | rewritten (text : String)
deriving DecidableEq, Repr

/-- The returned value, for an argument. -/
def Returned.value (raw : Option String) : Returned → Option String
  | .same => raw
  | .rewritten text => some text

/-- `_coerce_unshreddable_ints`. -/
def coerceUnshreddableInts (lib : Orjson F) (frames : ℕ) (raw : Option String) :
    Except PyError Returned :=
  match raw.bind lib.loads with
  | none => .ok .same
  | some doc =>
      match walk doc frames with
      | .error e => .error e
      | .ok (fixed, changed) =>
          if !changed then .ok .same
          else match lib.dumps fixed with
            | none => .error .jsonEncodeError
            | some text => .ok (.rewritten text)

/-- `9[0-9]{18}` or `1[0-9]{19}` at the head of the text. -/
def matchesDigits : List Char → Bool
  | c :: rest =>
      (c = '9' && decide (18 ≤ (rest.takeWhile Char.isDigit).length)) ||
        (c = '1' && decide (19 ≤ (rest.takeWhile Char.isDigit).length))
  | [] => false

/-- `match_substring_regex` with `_MAYBE_UNSHREDDABLE_DIGITS`. -/
def maybeUnshreddable (text : String) : Bool := text.toList.tails.any matchesDigits

/-- The pass of `sanitize_variant_sources` over a string column: the hidden column, when one is
    appended. -/
def sanitizeColumn (lib : Orjson F) (frames : ℕ) (values : List (Option String)) :
    Except PyError (Option (List (Option String))) :=
  if values.any fun raw => raw.any maybeUnshreddable then do
    let fixed ← values.mapM (coerceUnshreddableInts lib frames)
    -- `before is not after` is counted
    pure (if fixed.all (· = .same) then none else some (List.zipWith Returned.value values fixed))
  else pure none

end Millpond.Ducklake
