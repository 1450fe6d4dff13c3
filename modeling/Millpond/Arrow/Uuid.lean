import Mathlib.Data.List.Basic
import Mathlib.Data.Nat.Notation

set_option autoImplicit false

/-! # The uuid codec

`uuid_bytes` takes the enumerated spellings of a UUID to its 16 bytes, and `uuid_text` writes them
in the canonical one. Two UUIDs are the same bytes exactly if they have the same canonical text. -/

namespace Millpond.Arrow

abbrev Bytes := List UInt8

/-- A cell of a `pa.uuid()` column. -/
structure Uuid where
  raw : Bytes
  sixteen : raw.length = 16
deriving DecidableEq

/-! ## Hex -/

/-- `_PyLong_DigitValue`, as far as it is below 16. -/
def hexValue (c : Char) : Option ℕ :=
  if 48 ≤ c.toNat ∧ c.toNat ≤ 57 then some (c.toNat - 48)
  else if 97 ≤ c.toNat ∧ c.toNat ≤ 102 then some (c.toNat - 87)
  else if 65 ≤ c.toNat ∧ c.toNat ≤ 70 then some (c.toNat - 55)
  else none

/-- `Py_ISSPACE`. -/
def isSpace (c : Char) : Bool := (9 ≤ c.toNat && c.toNat ≤ 13) || c.toNat = 32

/-- `bytes.fromhex`: spaces are skipped before a byte, not within it. -/
def fromHex : List Char → Option Bytes
  | [] => some []
  | [c] => if isSpace c then some [] else none
  | c :: d :: rest =>
      if isSpace c then fromHex (d :: rest)
      else match hexValue c, hexValue d with
        | some high, some low => (fromHex rest).map (UInt8.ofNat (16 * high + low) :: ·)
        | _, _ => none

def hexDigit (n : ℕ) : Char := "0123456789abcdef".toList.getD n '0'

/-- `bytes.hex`. -/
def hexed (raw : Bytes) : List Char :=
  raw.flatMap fun b => [hexDigit (b.toNat / 16), hexDigit (b.toNat % 16)]

/-! ## The codec -/

/-- `_URN_PREFIX`. -/
def urnPrefix : List Char := "urn:uuid:".toList

/-- The text without its prefix or its braces. -/
def unwrapped (text : List Char) : List Char :=
  if urnPrefix.isPrefixOf text then text.drop urnPrefix.length
  else if 2 ≤ text.length ∧ text.head? = some '\x7b' ∧ text.getLast? = some '\x7d' then
    (text.drop 1).dropLast
  else text

/-- The hyphens of a text of 36 characters, which stand where they belong, are taken out. -/
def unhyphened (text : List Char) : Option (List Char) :=
  if text.length = 36 then
    if text[8]? = some '-' ∧ text[13]? = some '-' ∧ text[18]? = some '-' ∧ text[23]? = some '-' then
      some (text.filter (· ≠ '-'))
    else none
  else some text

/-- `uuid_bytes`, `none` for its `ValueError`. -/
def uuidBytes (value : String) : Option Uuid :=
  match unhyphened (unwrapped value.toList) with
  | none => none
  | some text =>
      if text.length ≠ 32 then none
      else match fromHex text with
        | none => none
        | some raw => if h : raw.length = 16 then some ⟨raw, h⟩ else none

/-- `uuid_text`. -/
def uuidText (uuid : Uuid) : String :=
  let text := hexed uuid.raw
  String.ofList (text.take 8 ++ '-' :: (text.drop 8).take 4 ++ '-' :: (text.drop 12).take 4 ++
    '-' :: (text.drop 16).take 4 ++ '-' :: text.drop 20)

theorem hexValue_hexDigit {n : ℕ} (h : n < 16) : hexValue (hexDigit n) = some n := by
  have hall : ∀ n : Fin 16, hexValue (hexDigit n) = some n.val := by decide
  exact hall ⟨n, h⟩

theorem hexDigit_ne {n : ℕ} (h : n < 16) : hexDigit n ≠ '-' ∧ isSpace (hexDigit n) = false := by
  have hall : ∀ n : Fin 16, hexDigit n ≠ '-' ∧ isSpace (hexDigit n) = false := by decide
  exact hall ⟨n, h⟩

theorem hexed_cons (b : UInt8) (rest : Bytes) :
    hexed (b :: rest) = hexDigit (b.toNat / 16) :: hexDigit (b.toNat % 16) :: hexed rest := rfl

@[simp] theorem length_hexed (raw : Bytes) : (hexed raw).length = 2 * raw.length := by
  induction raw with
  | nil => rfl
  | cons b rest ih =>
      rw [hexed_cons, List.length_cons, List.length_cons, ih, List.length_cons]
      omega

theorem fromHex_hexed (raw : Bytes) : fromHex (hexed raw) = some raw := by
  induction raw with
  | nil => rfl
  | cons b rest ih =>
      have hlt := b.toNat_lt
      have hhigh : b.toNat / 16 < 16 := by omega
      have hlow : b.toNat % 16 < 16 := Nat.mod_lt _ (by decide)
      have hbyte : UInt8.ofNat (16 * (b.toNat / 16) + b.toNat % 16) = b := by
        rw [Nat.div_add_mod]
        exact UInt8.ofNat_toNat
      rw [hexed_cons]
      rw [fromHex, if_neg (by simp [(hexDigit_ne hhigh).2])]
      simp only [hexValue_hexDigit hhigh, hexValue_hexDigit hlow, ih, Option.map_some, hbyte]

theorem dash_notMem_hexed (raw : Bytes) : '-' ∉ hexed raw := by
  intro h
  obtain ⟨b, -, hb⟩ := List.mem_flatMap.1 h
  have hlt := b.toNat_lt
  simp only [List.mem_cons, List.not_mem_nil, or_false] at hb
  rcases hb with hb | hb
  · exact (hexDigit_ne (by omega)).1 hb.symm
  · exact (hexDigit_ne (Nat.mod_lt _ (by decide))).1 hb.symm

/-- Digits in groups of 8, 4, 4, 4 and 12. -/
def hyphenated (digits : List Char) : List Char :=
  digits.take 8 ++ '-' :: (digits.drop 8).take 4 ++ '-' :: (digits.drop 12).take 4 ++
    '-' :: (digits.drop 16).take 4 ++ '-' :: digits.drop 20

/-- The digits are what the hyphens separate. -/
theorem filter_hyphenated {digits : List Char} (h : '-' ∉ digits) :
    (hyphenated digits).filter (· ≠ '-') = digits := by
  have hkeep : ∀ part : List Char, part ⊆ digits → part.filter (· ≠ '-') = part := by
    intro part hpart
    refine List.filter_eq_self.2 fun c hc => ?_
    have hne : c ≠ '-' := fun heq => h (heq ▸ hpart hc)
    simpa using hne
  have htake : ∀ n m, (digits.drop n).take m ⊆ digits :=
    fun n m => ((List.take_sublist _ _).trans (List.drop_sublist _ _)).subset
  have hfirst : digits.take 8 ⊆ digits := (List.take_sublist _ _).subset
  have hlast : digits.drop 20 ⊆ digits := (List.drop_sublist _ _).subset
  have hdash : ∀ rest : List Char, ('-' :: rest).filter (· ≠ '-') = rest.filter (· ≠ '-') :=
    fun rest => by simp
  have hcut : ∀ n m, (digits.drop n).take m ++ digits.drop (n + m) = digits.drop n := by
    intro n m
    rw [← List.drop_drop, List.take_append_drop]
  simp only [hyphenated, List.filter_append, hdash, hkeep _ (htake _ _), hkeep _ hfirst, hkeep _ hlast]
  rw [List.append_assoc, hcut 16 4, List.append_assoc, hcut 12 4, List.append_assoc, hcut 8 4,
    List.take_append_drop]

theorem filter_uuidText (uuid : Uuid) : (uuidText uuid).toList.filter (· ≠ '-') = hexed uuid.raw := by
  have htext : (uuidText uuid).toList = hyphenated (hexed uuid.raw) := String.toList_ofList
  rw [htext, filter_hyphenated (dash_notMem_hexed uuid.raw)]

/-- **Canonical text decides.** -/
theorem uuidText_injective {a b : Uuid} (h : uuidText a = uuidText b) : a = b := by
  have hhex : hexed a.raw = hexed b.raw := by
    rw [← filter_uuidText, ← filter_uuidText, h]
  have hraw : a.raw = b.raw := by
    have hsome := fromHex_hexed a.raw
    rw [hhex, fromHex_hexed] at hsome
    exact (Option.some.inj hsome).symm
  cases a
  cases b
  subst hraw
  rfl

end Millpond.Arrow
