import Mathlib.Data.List.TakeWhile
import Mathlib.Data.String.Basic

set_option autoImplicit false

/-! # Quoting

How SQL reads a string literal, and how libpq reads the settings of a connection string: names and
values, with values in quotes or up to a blank, and the backslash as escape in both. -/

namespace Millpond

/-! ## SQL literals -/

/-- A literal after its opening quote: its text, and what follows the closing quote. -/
def readLiteral : List Char → Option (List Char × List Char)
  | [] => none
  | '\'' :: '\'' :: rest => (readLiteral rest).map fun r => ('\'' :: r.1, r.2)
  | '\'' :: rest => some ([], rest)
  | c :: rest => (readLiteral rest).map fun r => (c :: r.1, r.2)

/-- Single quotes doubled. -/
def doubledQuotes (text : List Char) : List Char :=
  text.flatMap fun c => if c = '\'' then ['\'', '\''] else [c]

/-- A doubled text ends where its literal does. -/
theorem readLiteral_doubled (text : List Char) {rest : List Char} (h : rest.head? ≠ some '\'') :
    readLiteral (doubledQuotes text ++ '\'' :: rest) = some (text, rest) := by
  induction text with
  | nil =>
      cases rest with
      | nil => rfl
      | cons c rest =>
          have hc : c ≠ '\'' := fun hc => h (by rw [hc]; rfl)
          simp [doubledQuotes, readLiteral, hc]
  | cons c text ih =>
      have hcons : doubledQuotes (c :: text)
          = (if c = '\'' then ['\'', '\''] else [c]) ++ doubledQuotes text := rfl
      rw [hcons, List.append_assoc]
      split_ifs with hc
      · subst hc
        simp [readLiteral, ih]
      · simp [readLiteral, hc, ih]

/-! ## Connection strings -/

namespace Conninfo

/-- What `isspace` takes. -/
def isBlank (c : Char) : Bool := c == ' ' || ('\t' ≤ c && c ≤ '\r')

/-- Where a reader is in a setting, with what it has of it. -/
inductive Position where
  | between
  | name (name : List Char)
  | equals (name : List Char)
  | value (name : List Char)
  | plain (name text : List Char)
  | plainEscape (name text : List Char)
  | quoted (name text : List Char)
  | quotedEscape (name text : List Char)
deriving DecidableEq, Repr

abbrev Settings := List (List Char × List Char)

structure Reader where
  position : Position
  settings : Settings
deriving DecidableEq, Repr

/-- One character; none if it cannot stand there. -/
def Reader.step (r : Reader) (c : Char) : Option Reader :=
  match r.position with
  | .between =>
      if isBlank c then some r
      else if c = '=' then some { r with position := .value [] }
      else some { r with position := .name [c] }
  | .name name =>
      if c = '=' then some { r with position := .value name }
      else if isBlank c then some { r with position := .equals name }
      else some { r with position := .name (name ++ [c]) }
  | .equals name =>
      if isBlank c then some r
      else if c = '=' then some { r with position := .value name }
      else none
  | .value name =>
      if isBlank c then some r
      else if c = '\'' then some { r with position := .quoted name [] }
      else if c = '\\' then some { r with position := .plainEscape name [] }
      else some { r with position := .plain name [c] }
  | .plain name text =>
      if isBlank c then some ⟨.between, r.settings ++ [(name, text)]⟩
      else if c = '\\' then some { r with position := .plainEscape name text }
      else some { r with position := .plain name (text ++ [c]) }
  | .plainEscape name text => some { r with position := .plain name (text ++ [c]) }
  | .quoted name text =>
      if c = '\\' then some { r with position := .quotedEscape name text }
      else if c = '\'' then some ⟨.between, r.settings ++ [(name, text)]⟩
      else some { r with position := .quoted name (text ++ [c]) }
  | .quotedEscape name text => some { r with position := .quoted name (text ++ [c]) }

/-- A text, character by character. -/
def Reader.read (r : Reader) (text : List Char) : Option Reader := text.foldlM Reader.step r

/-- The end of the text; none in a name or in quotes. -/
def Reader.finish (r : Reader) : Option Settings :=
  match r.position with
  | .between => some r.settings
  | .name _ => none
  | .equals _ => none
  | .value name => some (r.settings ++ [(name, [])])
  | .plain name text => some (r.settings ++ [(name, text)])
  | .plainEscape name text => some (r.settings ++ [(name, text)])
  | .quoted _ _ => none
  | .quotedEscape _ _ => none

def start : Reader := ⟨.between, []⟩

/-- The settings of a connection string. It is a C string, and ends at its first NUL. -/
def parse (text : List Char) : Option Settings :=
  (start.read (text.takeWhile fun c => c != '\x00')).bind Reader.finish

/-- Quotes and backslashes escaped. -/
def escaped (text : List Char) : List Char :=
  text.flatMap fun c => if c = '\\' ∨ c = '\'' then ['\\', c] else [c]

variable {name text : List Char} {settings : Settings} {r : Reader}

theorem read_append (r : Reader) (a b : List Char) :
    r.read (a ++ b) = (r.read a).bind fun r' => r'.read b :=
  List.foldlM_append

theorem read_cons (r : Reader) (c : Char) (rest : List Char) :
    r.read (c :: rest) = (r.step c).bind fun r' => r'.read rest :=
  List.foldlM_cons

/-- Reading goes on from where it stands. -/
theorem read_of_read {r' : Reader} {a : List Char} (h : r.read a = some r') (b : List Char) :
    r.read (a ++ b) = r'.read b := by
  rw [read_append, h]
  rfl

/-- A character of a name. -/
def inName (c : Char) : Bool := !isBlank c && c != '='

theorem read_inName (hname : name.all inName = true) (seen : List Char) :
    Reader.read ⟨.name seen, settings⟩ (name ++ ['=']) = some ⟨.value (seen ++ name), settings⟩ := by
  induction name generalizing seen with
  | nil => simp [Reader.read, Reader.step]
  | cons c rest ih =>
      obtain ⟨hc, hrest⟩ := Bool.and_eq_true_iff.1 hname
      obtain ⟨hblank, heq⟩ : isBlank c = false ∧ c ≠ '=' := by simpa [inName] using hc
      simp [read_cons, Reader.step, hblank, heq, ih hrest]

theorem read_name (hname : name.all inName = true) (hne : name ≠ []) :
    Reader.read ⟨.between, settings⟩ (name ++ ['=']) = some ⟨.value name, settings⟩ := by
  cases name with
  | nil => exact absurd rfl hne
  | cons c rest =>
      obtain ⟨hc, hrest⟩ := Bool.and_eq_true_iff.1 hname
      obtain ⟨hblank, heq⟩ : isBlank c = false ∧ c ≠ '=' := by simpa [inName] using hc
      simp [read_cons, Reader.step, hblank, heq, read_inName hrest]

/-- A character that a value without quotes takes as it is. -/
def inWord (c : Char) : Bool := !isBlank c && c != '\\'

theorem read_word (htext : text.all inWord = true) (seen : List Char) :
    Reader.read ⟨.plain name seen, settings⟩ text = some ⟨.plain name (seen ++ text), settings⟩ := by
  induction text generalizing seen with
  | nil => simp [Reader.read]
  | cons c rest ih =>
      obtain ⟨hc, hrest⟩ := Bool.and_eq_true_iff.1 htext
      obtain ⟨hblank, hback⟩ : isBlank c = false ∧ c ≠ '\\' := by simpa [inWord] using hc
      simp [read_cons, Reader.step, hblank, hback, ih hrest]

/-- An escaped text in quotes is read as it was. -/
theorem read_escaped (seen : List Char) :
    Reader.read ⟨.quoted name seen, settings⟩ (escaped text) = some ⟨.quoted name (seen ++ text), settings⟩ := by
  induction text generalizing seen with
  | nil => simp [escaped, Reader.read]
  | cons c rest ih =>
      have hcons : escaped (c :: rest)
          = (if c = '\\' ∨ c = '\'' then ['\\', c] else [c]) ++ escaped rest := rfl
      rw [hcons]
      split_ifs with hc
      · simp [read_cons, Reader.step, ih]
      · obtain ⟨hback, hquote⟩ := not_or.1 hc
        simp [read_cons, Reader.step, hback, hquote, ih]

/-- A setting with its value in quotes. -/
def quotedSetting (name text : List Char) : List Char := name ++ '=' :: '\'' :: escaped text ++ ['\'']

/-- Whatever is in quotes and escaped, it is the value of its setting and the next starts after it. -/
theorem read_quotedSetting (hname : name.all inName = true) (hne : name ≠ []) :
    Reader.read ⟨.between, settings⟩ (quotedSetting name text)
      = some ⟨.between, settings ++ [(name, text)]⟩ := by
  have hsplit : quotedSetting name text = (name ++ ['=']) ++ ('\'' :: (escaped text ++ ['\''])) := by
    simp [quotedSetting]
  have hopen : Reader.step ⟨.value name, settings⟩ '\'' = some ⟨.quoted name [], settings⟩ := rfl
  have hclose : Reader.step ⟨.quoted name text, settings⟩ '\''
      = some ⟨.between, settings ++ [(name, text)]⟩ := rfl
  rw [hsplit, read_of_read (read_name hname hne), read_cons, hopen, Option.bind_some,
    read_of_read (read_escaped []), List.nil_append, read_cons, hclose]
  rfl

/-- A setting whose value is a word. -/
theorem read_wordSetting (hname : name.all inName = true) (hne : name ≠ []) {c : Char}
    (hc : c ≠ '\'') (htext : (c :: text).all inWord = true) :
    Reader.read ⟨.between, settings⟩ (name ++ '=' :: c :: text ++ [' '])
      = some ⟨.between, settings ++ [(name, c :: text)]⟩ := by
  have hsplit : name ++ '=' :: c :: text ++ [' '] = (name ++ ['=']) ++ (c :: (text ++ [' '])) := by
    simp
  obtain ⟨hword, hrest⟩ := Bool.and_eq_true_iff.1 htext
  obtain ⟨hblank, hback⟩ : isBlank c = false ∧ c ≠ '\\' := by simpa [inWord] using hword
  have hfirst : Reader.step ⟨.value name, settings⟩ c = some ⟨.plain name [c], settings⟩ := by
    simp [Reader.step, hblank, hback, hc]
  rw [hsplit, read_of_read (read_name hname hne), read_cons, hfirst, Option.bind_some,
    read_of_read (read_word hrest [c])]
  rfl

/-- Settings with their values in quotes, one after another. -/
theorem read_quotedSettings {l : Settings} (h : ∀ p ∈ l, p.1.all inName = true ∧ p.1 ≠ []) :
    Reader.read ⟨.between, settings⟩ (l.flatMap fun p => ' ' :: quotedSetting p.1 p.2)
      = some ⟨.between, settings ++ l⟩ := by
  induction l generalizing settings with
  | nil => simp [Reader.read]
  | cons p rest ih =>
      obtain ⟨⟨hname, hne⟩, hrest⟩ := List.forall_mem_cons.1 h
      have hblank : Reader.step ⟨.between, settings⟩ ' ' = some ⟨.between, settings⟩ := rfl
      rw [List.flatMap_cons, List.cons_append, read_cons, hblank, Option.bind_some,
        read_of_read (read_quotedSetting hname hne), ih hrest, List.append_assoc]
      rfl

theorem parse_of_noNul (h : '\x00' ∉ text) : parse text = (start.read text).bind Reader.finish := by
  have hwhole : (text.takeWhile fun c => c != '\x00') = text := by
    rw [List.takeWhile_eq_self_iff]
    exact fun c hc => bne_iff_ne.2 fun heq => h (heq ▸ hc)
  rw [parse, hwhole]

theorem mem_escaped {c : Char} (h : c ∈ escaped text) : c ∈ text ∨ c = '\\' := by
  obtain ⟨d, hd, hc⟩ := List.mem_flatMap.1 h
  split_ifs at hc
  · rcases List.mem_cons.1 hc with rfl | hc
    · exact Or.inr rfl
    · exact Or.inl (List.mem_singleton.1 hc ▸ hd)
  · exact Or.inl (List.mem_singleton.1 hc ▸ hd)

/-- After a blank no escape is pending, and no name is going on. -/
theorem position_of_blank {r' : Reader} (h : r.step ' ' = some r') :
    r'.position = .between ∨ (∃ n, r'.position = .equals n) ∨ (∃ n, r'.position = .value n) ∨
      (∃ n t, r'.position = .plain n t) ∨ ∃ n t, r'.position = .quoted n t := by
  obtain ⟨position, settings⟩ := r
  cases position <;> cases h <;> simp

end Conninfo

end Millpond
