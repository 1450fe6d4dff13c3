import Millpond.Config.PartitionBy
import Millpond.Hoglake.ColumnNames
import Millpond.Lib.Rendering
import Millpond.Maintenance.IntegerTexts

set_option autoImplicit false

/-! # The grammar of HOGLAKE_PARTITION_BY

What the depth-counting splitter, the lazy expression and `int()` accept together, and that both
renderers write what the parser reads. -/

namespace Millpond.Config

open Millpond.Maintenance (isSpace pyInt digitOf readDigits decimalZeros)
open Millpond.Hoglake (isIdentifierStart matchesSafeIdentifier matchesSafeIdentifier_iff isSafeBody
  newline_notMem_of_isSafeBody PartitionField Column SinkConfig wantPartitionFields)

/-! ## The grammar -/

/-- White space. -/
def IsSpaces (text : List Char) : Prop := ∀ c ∈ text, isSpace c = true

/-- White space without a line feed. -/
def IsBlanks (text : List Char) : Prop := IsSpaces text ∧ '\n' ∉ text

/-- A count that `int()` reads as a positive integer. -/
structure Reads (text : List Char) (n : ℕ) : Prop where
  trimmed : Trimmed isSpace text
  reads : pyInt (String.ofList text) = some (n : ℤ)
  pos : 0 < n

/-- A positive decimal integer, in digits only. -/
structure DigitsOnly (text : List Char) (n : ℕ) : Prop where
  digits : ∀ c ∈ text, c.isDigit = true
  value : Nat.ofDigitChars 10 text 0 = n
  pos : 0 < n

/-- The entries: a column, a transform of a column, or a bucket with its count. -/
inductive Entry (numerals : List Char → ℕ → Prop) : List Char → PartitionTriple → Prop
  | column {col : List Char} (hcol : isSafeBody col = true) :
      Entry numerals col (String.ofList col, "identity", none)
  | call {name gap before col after : List Char} {transform : String}
      (hname : (String.ofList name).toLower = transform)
      (htransform : transform ∈ ["identity", "year", "month", "day", "hour"])
      (hgap : IsSpaces gap) (hbefore : IsSpaces before) (hcol : isSafeBody col = true)
      (hafter : IsSpaces after) :
      Entry numerals (name ++ (gap ++ ('(' :: ((before ++ col ++ after) ++ [')']))))
        (String.ofList col, transform, none)
  | bucket {name gap before col left right count after : List Char} {n : ℕ}
      (hname : (String.ofList name).toLower = "bucket")
      (hgap : IsSpaces gap) (hbefore : IsSpaces before) (hcol : isSafeBody col = true)
      (hleft : IsBlanks left) (hright : IsBlanks right) (hcount : numerals count n)
      (hafter : IsSpaces after) :
      Entry numerals
        (name ++ (gap ++ ('(' :: ((before ++ (col ++ left ++ ',' :: (right ++ count)) ++ after) ++ [')']))))
        (String.ofList col, "bucket", some n)

/-- The setting spells these triples: pieces between commas, the blank ones apart, which are entries,
    no triple twice. -/
def Spells (numerals : List Char → ℕ → Prop) (raw : String) (fields : List PartitionTriple) : Prop :=
  ∃ pieces : List (List Char), raw.toList = [','].intercalate pieces ∧
    List.Forall₂ (Entry numerals) ((pieces.map strip).filter (!·.isEmpty)) fields ∧
    fields ≠ [] ∧ fields.Nodup

/-! ## Characters -/

/-- What an identifier is made of is neither white space nor punctuation. -/
theorem isIdentifierChar_apart {c : Char} (h : isIdentifierChar c = true) :
    isSpace c = false ∧ c ≠ '(' ∧ c ≠ ')' ∧ c ≠ ',' := by
  have hall : ∀ k < 123, isIdentifierChar (Char.ofNat k) = true →
      isSpace (Char.ofNat k) = false ∧ Char.ofNat k ≠ '(' ∧ Char.ofNat k ≠ ')' ∧
        Char.ofNat k ≠ ',' := by decide +kernel
  have hupper : c.isUpper = true → c.toNat < 123 := fun hc =>
    lt_of_le_of_lt (UInt32.le_iff_toNat_le.1 (of_decide_eq_true hc).2) (by decide)
  have hlower : c.isLower = true → c.toNat < 123 := fun hc =>
    lt_of_le_of_lt (UInt32.le_iff_toNat_le.1 (of_decide_eq_true (Bool.and_eq_true_iff.1 hc).2))
      (by decide)
  have hdigit : c.isDigit = true → c.toNat < 123 := by
    intro hc
    simp only [Char.isDigit, Bool.and_eq_true, decide_eq_true_eq] at hc
    exact lt_of_le_of_lt (UInt32.le_iff_toNat_le.1 hc.2) (by decide)
  have hlt : c.toNat < 123 := by
    rcases Bool.or_eq_true_iff.1 h with hstart | hc
    · rcases Bool.or_eq_true_iff.1 hstart with halpha | hunder
      · exact (Bool.or_eq_true_iff.1 halpha).elim hupper hlower
      · rw [of_decide_eq_true hunder]
        decide
    · exact hdigit hc
  have hc := hall c.toNat hlt
  rw [Char.ofNat_toNat] at hc
  exact hc h

theorem isIdentifierChar_of_mem {col : List Char} (h : isSafeBody col = true) :
    ∀ c ∈ col, isIdentifierChar c = true := by
  cases col with
  | nil => cases h
  | cons c rest =>
      simp only [isSafeBody, Bool.and_eq_true, List.all_eq_true] at h
      intro d hd
      rcases List.mem_cons.1 hd with rfl | hd
      · exact Bool.or_eq_true_iff.2 (Or.inl h.1)
      · exact h.2 d hd

theorem isIdentifierChar_of_toLower {c : Char} (h : c.toLower.isAlpha = true) :
    isIdentifierStart c = true := by
  have halpha : c.isAlpha = true := by
    unfold Char.toLower at h
    split_ifs at h with hupper
    · exact Bool.or_eq_true_iff.2 (Or.inl (decide_eq_true hupper))
    · exact h
  exact Bool.or_eq_true_iff.2 (Or.inl halpha)

/-- The name of a transform, in any case, is an identifier. -/
theorem isSafeBody_of_transform {name : List Char} {transform : String}
    (hname : (String.ofList name).toLower = transform) (h : transform ∈ hoglakeTransforms) :
    isSafeBody name = true := by
  have hletters : ∀ t ∈ hoglakeTransforms, t.toList.all Char.isAlpha = true ∧ t.toList ≠ [] := by
    decide +kernel
  obtain ⟨halpha, hne⟩ := hletters transform h
  rw [List.all_eq_true] at halpha
  have hmap : transform.toList = name.map Char.toLower := by
    have hlower : (String.ofList name).toLower = (String.ofList name).map Char.toLower := rfl
    rw [← hname, hlower, String.toList_map, String.toList_ofList]
  rw [hmap] at halpha hne
  have hstart : ∀ c ∈ name, isIdentifierStart c = true := fun c hc =>
    isIdentifierChar_of_toLower (halpha _ (List.mem_map_of_mem hc))
  cases name with
  | nil => exact absurd rfl hne
  | cons c rest =>
      simp only [isSafeBody, Bool.and_eq_true, List.all_eq_true, Bool.or_eq_true]
      exact ⟨hstart c List.mem_cons_self, fun d hd => Or.inl (hstart d (List.mem_cons_of_mem _ hd))⟩

theorem trimmed_of_isSafeBody {col : List Char} (h : isSafeBody col = true) : Trimmed isSpace col :=
  trimmed_of_forall fun c hc => (isIdentifierChar_apart (isIdentifierChar_of_mem h c hc)).1

/-! ## Counts -/

theorem readDigits_chars {afterDigit : Bool} {acc n : ℕ} {text : List Char}
    (h : readDigits afterDigit acc text = some n) :
    ∀ c ∈ text, (digitOf c).isSome = true ∨ c = '_' := by
  induction text generalizing afterDigit acc with
  | nil => simp
  | cons c rest ih =>
      rw [readDigits] at h
      intro d hd
      cases hdigit : digitOf c with
      | some value =>
          rw [hdigit] at h
          rcases List.mem_cons.1 hd with rfl | hd
          · exact Or.inl (by rw [hdigit]; rfl)
          · exact ih h d hd
      | none =>
          simp only [hdigit] at h
          split_ifs at h with hunder
          rcases List.mem_cons.1 hd with rfl | hd
          · exact Or.inr (beq_iff_eq.1 (Bool.and_eq_true_iff.1 hunder).1)
          · exact ih h d hd

/-- A decimal digit is neither white space nor punctuation. -/
theorem digitOf_apart {c : Char} (h : (digitOf c).isSome = true) :
    isSpace c = false ∧ c ≠ '(' ∧ c ≠ ')' ∧ c ≠ ',' := by
  have hall : ∀ z ∈ decimalZeros, ∀ d < 10, (z + d ≠ 40 ∧ z + d ≠ 41 ∧ z + d ≠ 44) ∧
      ([0x9, 0xa, 0xb, 0xc, 0xd, 0x1c, 0x1d, 0x1e, 0x1f, 0x20, 0x85, 0xa0, 0x1680, 0x2000, 0x2001,
        0x2002, 0x2003, 0x2004, 0x2005, 0x2006, 0x2007, 0x2008, 0x2009, 0x200a, 0x2028, 0x2029,
        0x202f, 0x205f, 0x3000].any (· == z + d)) = false := by decide +kernel
  rw [digitOf, Option.isSome_map] at h
  obtain ⟨z, hz⟩ := Option.isSome_iff_exists.1 h
  have hmem := List.mem_of_find?_eq_some hz
  have hrange := List.find?_some hz
  simp only [decide_eq_true_eq] at hrange
  obtain ⟨hpunct, hspace⟩ := hall z hmem (c.toNat - z) (by omega)
  have hcode : z + (c.toNat - z) = c.toNat := by omega
  rw [hcode] at hpunct hspace
  refine ⟨hspace, ?_, ?_, ?_⟩
  · rintro rfl
    exact hpunct.1 (by decide)
  · rintro rfl
    exact hpunct.2.1 (by decide)
  · rintro rfl
    exact hpunct.2.2 (by decide)

/-- The text behind a sign. -/
def unsigned (text : List Char) : List Char :=
  if text.head? = some '-' ∨ text.head? = some '+' then text.tail else text

theorem readDigits_of_pyInt {text : List Char} {m : ℤ} (htrim : Trimmed isSpace text)
    (h : pyInt (String.ofList text) = some m) : ∃ k, readDigits false 0 (unsigned text) = some k := by
  have htext : ((text.dropWhile Maintenance.isIntSpace).reverse.dropWhile Maintenance.isIntSpace).reverse =
      text := (Maintenance.trimmed_isIntSpace htrim).trim_eq
  unfold pyInt at h
  simp only [String.toList_ofList, htext] at h
  by_cases hlong : 4300 < ((unsigned text).filter fun c => (digitOf c).isSome).length
  · rw [unsigned] at hlong
    rw [if_pos hlong] at h
    cases h
  · rw [unsigned] at hlong
    rw [if_neg hlong] at h
    obtain ⟨value, hvalue, -⟩ := Option.map_eq_some_iff.1 h
    obtain ⟨k, hk, -⟩ := Option.bind_eq_some_iff.1 hvalue
    exact ⟨k, hk⟩

/-- What `int()` reads is made of digits, underscores and a sign. -/
theorem Reads.apart {text : List Char} {n : ℕ} (h : Reads text n) :
    ∀ c ∈ text, isSpace c = false ∧ c ≠ '(' ∧ c ≠ ')' ∧ c ≠ ',' := by
  obtain ⟨k, hk⟩ := readDigits_of_pyInt h.trimmed h.reads
  have hchars : ∀ c ∈ unsigned text, isSpace c = false ∧ c ≠ '(' ∧ c ≠ ')' ∧ c ≠ ',' := by
    intro c hc
    rcases readDigits_chars hk c hc with hdigit | rfl
    · exact digitOf_apart hdigit
    · decide
  intro c hc
  unfold unsigned at hchars
  split_ifs at hchars with hsign
  · cases text with
    | nil => cases hc
    | cons d rest =>
        rcases List.mem_cons.1 hc with rfl | hc
        · rcases hsign with hsign | hsign
          · obtain rfl := Option.some.inj hsign
            decide
          · obtain rfl := Option.some.inj hsign
            decide
        · exact hchars c hc
  · exact hchars c hc

theorem Reads.ne_nil {text : List Char} {n : ℕ} (h : Reads text n) : text ≠ [] := by
  rintro rfl
  have hreads := h.reads
  have hnone : pyInt (String.ofList []) = none := by decide +kernel
  rw [hnone] at hreads
  cases hreads

/-- What `str()` writes is read by `int()`, as far as both go. -/
theorem reads_repr {n : ℕ} (hpos : 0 < n) (hshort : n.repr.length ≤ 4300) :
    Reads n.repr.toList n := by
  refine ⟨Maintenance.trimmed_repr n, ?_, hpos⟩
  rw [String.ofList_toList, Maintenance.pyInt_repr_eq, if_neg (not_lt.2 hshort)]

/-! ## The splitter -/

theorem splitLoop_ne_nil (depth : ℕ) (current text : List Char) :
    splitLoop depth current text ≠ [] := by
  induction text generalizing depth current with
  | nil => exact List.cons_ne_nil _ _
  | cons c rest ih =>
      simp only [splitLoop]
      split_ifs <;> first | exact List.cons_ne_nil _ _ | exact ih _ _

theorem intercalate_cons {c : Char} {a : List Char} {l : List (List Char)} (h : l ≠ []) :
    [c].intercalate (a :: l) = a ++ c :: [c].intercalate l := by
  cases l with
  | nil => exact absurd rfl h
  | cons b rest => rfl

/-- A character that is neither a parenthesis nor a comma to split at. -/
theorem splitLoop_plain {depth : ℕ} {c : Char} (hopen : c ≠ '(') (hclose : c ≠ ')')
    (hcut : c = ',' → depth ≠ 0) (current rest : List Char) :
    splitLoop depth current (c :: rest) = splitLoop depth (current ++ [c]) rest := by
  rw [splitLoop]
  simp only [if_neg hopen, if_neg hclose]
  exact if_neg fun h => hcut h.1 h.2

/-- The splitter loses nothing. -/
theorem intercalate_splitLoop (depth : ℕ) (current text : List Char) :
    [','].intercalate (splitLoop depth current text) = current ++ text := by
  induction text generalizing depth current with
  | nil => simp [splitLoop]
  | cons c rest ih =>
      rw [splitLoop]
      generalize (if c = '(' then depth + 1 else if c = ')' then depth - 1 else depth) = next
      split_ifs with hcut
      · rw [intercalate_cons (splitLoop_ne_nil _ _ _), ih, hcut.1, List.nil_append]
      · rw [ih, List.append_assoc, List.singleton_append]

/-- The splitter runs through it and is at the top again. -/
def Closed (text : List Char) : Prop :=
  ∀ current rest, splitLoop 0 current (text ++ rest) = splitLoop 0 (current ++ text) rest

theorem Closed.append {a b : List Char} (ha : Closed a) (hb : Closed b) : Closed (a ++ b) := by
  intro current rest
  rw [List.append_assoc, ha, hb, List.append_assoc]

theorem closed_of_flat {text : List Char} (h : ∀ c ∈ text, c ≠ '(' ∧ c ≠ ')' ∧ c ≠ ',') :
    Closed text := by
  induction text with
  | nil => exact fun current rest => by rw [List.nil_append, List.append_nil]
  | cons c text ih =>
      intro current rest
      obtain ⟨hopen, hclose, hcomma⟩ := h c List.mem_cons_self
      rw [List.cons_append, splitLoop_plain hopen hclose (fun hc => absurd hc hcomma),
        ih (fun d hd => h d (List.mem_cons_of_mem _ hd)),
        List.append_assoc, List.singleton_append]

/-- Within parentheses a comma does not split. -/
theorem splitLoop_inner {inner : List Char} (h : ∀ c ∈ inner, c ≠ '(' ∧ c ≠ ')') (depth : ℕ)
    (current rest : List Char) : splitLoop (depth + 1) current (inner ++ rest)
      = splitLoop (depth + 1) (current ++ inner) rest := by
  induction inner generalizing current with
  | nil => rw [List.nil_append, List.append_nil]
  | cons c inner ih =>
      obtain ⟨hopen, hclose⟩ := h c List.mem_cons_self
      rw [List.cons_append, splitLoop_plain hopen hclose (fun _ => Nat.succ_ne_zero _),
        ih (fun d hd => h d (List.mem_cons_of_mem _ hd)),
        List.append_assoc, List.singleton_append]

theorem closed_of_parens {inner : List Char} (h : ∀ c ∈ inner, c ≠ '(' ∧ c ≠ ')') :
    Closed ('(' :: (inner ++ [')'])) := by
  intro current rest
  have hopen : splitLoop 0 current ('(' :: (inner ++ [')'] ++ rest))
      = splitLoop 1 (current ++ ['(']) (inner ++ (')' :: rest)) := by
    simp [splitLoop]
  have hclose : splitLoop 1 (current ++ ['('] ++ inner) (')' :: rest)
      = splitLoop 0 (current ++ ['('] ++ inner ++ [')']) rest := by
    simp [splitLoop]
  rw [List.cons_append, hopen, splitLoop_inner h 0, hclose]
  simp only [List.append_assoc, List.nil_append, List.cons_append]

/-- Closed pieces are split as they were joined. -/
theorem splitLoop_intercalate {pieces : List (List Char)} (h : ∀ piece ∈ pieces, Closed piece)
    (hne : pieces ≠ []) : splitLoop 0 [] ([','].intercalate pieces) = pieces := by
  induction pieces with
  | nil => exact absurd rfl hne
  | cons piece rest ih =>
      have hclosed := h piece List.mem_cons_self
      by_cases hrest : rest = []
      · subst hrest
        have hend := hclosed [] []
        rw [List.append_nil, List.nil_append] at hend
        show splitLoop 0 [] ([','].intercalate [piece]) = [piece]
        rw [List.intercalate_singleton, hend]
        rfl
      · rw [intercalate_cons hrest, hclosed [] _, List.nil_append]
        have hcut : splitLoop 0 piece (',' :: [','].intercalate rest)
            = piece :: splitLoop 0 [] ([','].intercalate rest) := by
          simp [splitLoop]
        rw [hcut, ih (fun p hp => h p (List.mem_cons_of_mem _ hp)) hrest]

/-! ## The call form -/

variable {name gap inner entry group : List Char}

theorem takeWhile_append_cons {p : Char → Bool} {front : List Char} {c : Char}
    (hfront : ∀ d ∈ front, p d = true) (hc : p c = false) (rest : List Char) :
    (front ++ c :: rest).takeWhile p = front ∧ (front ++ c :: rest).dropWhile p = c :: rest := by
  constructor
  · rw [List.takeWhile_append_of_pos hfront, List.takeWhile_cons_of_neg (by rw [hc]; decide),
      List.append_nil]
  · rw [List.dropWhile_append_of_pos hfront, List.dropWhile_cons_of_neg (by rw [hc]; decide)]

/-- The expression matches the call form. -/
theorem partitionCall_call (hname : isSafeBody name = true) (hgap : IsSpaces gap)
    (hline : '\n' ∉ strip inner) :
    partitionCall (name ++ (gap ++ ('(' :: (inner ++ [')'])))) = some (name, strip inner) := by
  have hchars := isIdentifierChar_of_mem hname
  have hparen : isSpace '(' = false ∧ isIdentifierChar '(' = false := by decide
  have hbody := (takeWhile_append_cons hgap hparen.1 (inner ++ [')'])).2
  have hcut : (name ++ (gap ++ ('(' :: (inner ++ [')'])))).takeWhile isIdentifierChar = name ∧
      (name ++ (gap ++ ('(' :: (inner ++ [')'])))).dropWhile isIdentifierChar
        = gap ++ ('(' :: (inner ++ [')'])) := by
    cases hcons : gap with
    | nil => exact takeWhile_append_cons hchars hparen.2 _
    | cons c rest =>
        have hc : isSpace c = true := hgap c (hcons ▸ List.mem_cons_self)
        have hnot : isIdentifierChar c = false := by
          by_contra hid
          rw [(isIdentifierChar_apart (by simpa using hid)).1] at hc
          cases hc
        exact takeWhile_append_cons hchars hnot _
  have hlast : ('(' :: (inner ++ [')'])).getLast? = some ')' := by
    rw [← List.cons_append, List.getLast?_concat]
  have hstart : name.head?.any isIdentifierStart = true := by
    cases name with
    | nil => cases hname
    | cons c rest =>
        simp only [isSafeBody, Bool.and_eq_true] at hname
        exact hname.1
  have hinner : ('(' :: (inner ++ [')'])).tail.dropLast = inner := List.dropLast_concat
  unfold partitionCall
  simp only [hcut.1, hcut.2, hbody, hlast, Option.some.injEq, Char.reduceEq, if_false, hstart,
    List.head?_cons, List.length_cons, List.length_append, hinner, if_neg hline]
  simp

/-- What the expression matches, on a text that ends in no white space. -/
theorem partitionCall_eq_some (h : partitionCall entry = some (name, group))
    (htrim : Trimmed isSpace entry) : ∃ gap inner, entry = name ++ (gap ++ ('(' :: (inner ++ [')']))) ∧
      IsSpaces gap ∧ group = strip inner ∧ '\n' ∉ group := by
  unfold partitionCall at h
  simp only at h
  have hentry : entry = entry.takeWhile isIdentifierChar ++
      ((entry.dropWhile isIdentifierChar).takeWhile isSpace ++
        (entry.dropWhile isIdentifierChar).dropWhile isSpace) := by
    rw [List.takeWhile_append_dropWhile, List.takeWhile_append_dropWhile]
  have hgap : IsSpaces ((entry.dropWhile isIdentifierChar).takeWhile isSpace) :=
    fun c => List.mem_takeWhile_imp
  generalize (entry.dropWhile isIdentifierChar).takeWhile isSpace = gap at hentry hgap
  generalize (entry.dropWhile isIdentifierChar).dropWhile isSpace = rest at hentry h
  generalize entry.takeWhile isIdentifierChar = front at hentry h
  have hline : rest.getLast? ≠ some '\n' := by
    intro hlast
    have hend : entry.getLast? = some '\n' := by
      rw [hentry, ← List.append_assoc, List.getLast?_append, hlast]
      rfl
    exact absurd (htrim.last _ hend) (by decide)
  rw [if_neg hline] at h
  split_ifs at h with hcall hmem
  obtain ⟨-, hhead, hlength, hlast⟩ := hcall
  obtain ⟨rfl, rfl⟩ := Prod.mk.inj (Option.some.inj h)
  refine ⟨gap, rest.tail.dropLast, ?_, hgap, rfl, hmem⟩
  cases rest with
  | nil => cases hhead
  | cons c tail =>
      obtain rfl := Option.some.inj hhead
      have hne : tail ≠ [] := by
        rintro rfl
        simp at hlength
      rw [List.getLast?_cons_of_ne_nil hne] at hlast
      rw [List.tail_cons, List.dropLast_append_getLast? _ hlast]
      exact hentry

/-! ## One entry -/

theorem callArgs_one {col : List Char} (hne : group ≠ []) (hcomma : ',' ∉ group)
    (hcol : strip group = col) : callArgs group = [col] := by
  have hempty : group.isEmpty = false := by simpa using hne
  rw [callArgs, hempty, if_neg (by decide), List.splitOn_eq_singleton hcomma, List.map_singleton, hcol]

theorem callArgs_two {front back : List Char} (hfront : ',' ∉ front) (hback : ',' ∉ back) :
    callArgs (front ++ ',' :: back) = [strip front, strip back] := by
  have hempty : (front ++ ',' :: back).isEmpty = false := by simp
  rw [callArgs, hempty, if_neg (by decide), List.splitOn_append_cons_self front back,
    List.splitOn_eq_singleton hfront, List.splitOn_eq_singleton hback]
  rfl

/-- Two arguments come from a text with one comma. -/
theorem callArgs_eq_two {column count : List Char} (h : callArgs group = [column, count]) :
    ∃ front back, group = front ++ ',' :: back ∧ column = strip front ∧ count = strip back := by
  unfold callArgs at h
  split_ifs at h with hempty
  obtain ⟨front, rest, hsplit, hcolumn, hrest⟩ := List.map_eq_cons_iff.1 h
  obtain ⟨back, hback, hcount⟩ := List.map_eq_singleton_iff.1 hrest
  subst hback
  have hjoin : [','].intercalate (group.splitOn ',') = group := List.intercalate_splitOn ','
  rw [hsplit, intercalate_cons (List.cons_ne_nil _ _), List.intercalate_singleton] at hjoin
  exact ⟨front, back, hjoin.symm, hcolumn.symm, hcount.symm⟩

theorem callArgs_eq_one {column : List Char} (h : callArgs group = [column]) :
    column = strip group := by
  unfold callArgs at h
  split_ifs at h with hempty
  obtain ⟨front, hsplit, hcolumn⟩ := List.map_eq_singleton_iff.1 h
  have hjoin : [','].intercalate (group.splitOn ',') = group := List.intercalate_splitOn ','
  rw [hsplit, List.intercalate_singleton] at hjoin
  rw [← hcolumn, hjoin]

/-- A column that passes the gate is one up to a final line feed, which a stripped one has not. -/
theorem isSafeBody_strip {text : List Char}
    (h : matchesSafeIdentifier (String.ofList (strip text)) = true) : isSafeBody (strip text) = true := by
  rcases matchesSafeIdentifier_iff.1 h with hsafe | ⟨body, hbody, -⟩
  · rwa [String.toList_ofList] at hsafe
  · rw [String.toList_ofList] at hbody
    have hlast : (strip text).getLast? = some '\n' := by rw [hbody, List.getLast?_concat]
    exact absurd ((trimmed_trim isSpace text).last _ hlast) (by decide)

theorem matches_of_isSafeBody {col : List Char} (h : isSafeBody col = true) :
    matchesSafeIdentifier (String.ofList col) = true :=
  matchesSafeIdentifier_iff.2 (Or.inl (by rwa [String.toList_ofList]))

/-- The white space and the column before a comma, taken apart. -/
theorem exists_strip (text : List Char) : ∃ a b, text = a ++ strip text ++ b ∧ IsSpaces a ∧
    IsSpaces b := exists_trim isSpace text

theorem parseTransform_eq_ok {transform : String} {args : List (List Char)} {t : PartitionTriple}
    (h : parseTransform entry transform args = .ok t) :
    ∃ column, args = [column] ∧ column ≠ [] ∧ t = (String.ofList column, transform, none) := by
  unfold parseTransform at h
  split at h
  · rename_i column
    split_ifs at h with hempty
    cases h
    exact ⟨column, rfl, by simpa using hempty, rfl⟩
  · cases h

theorem parseBucket_eq_ok {args : List (List Char)} {t : PartitionTriple}
    (h : parseBucket entry args = .ok t) :
    ∃ column count n, args = [column, count] ∧ pyInt (String.ofList count) = some n ∧ 0 < n ∧
      t = (String.ofList column, "bucket", some n.toNat) := by
  unfold parseBucket at h
  split at h
  · rename_i column count
    cases hn : pyInt (String.ofList count) with
    | none => simp [hn] at h
    | some n =>
        simp only [hn] at h
        split_ifs at h with hpos
        cases h
        exact ⟨column, count, n, rfl, hn, not_le.1 hpos, rfl⟩
  · cases h

theorem parseForm_eq_ok {t : PartitionTriple} (h : parseForm entry = .ok t) :
    (partitionCall entry = none ∧ '(' ∉ entry ∧ ')' ∉ entry ∧
      t = (String.ofList entry, "identity", none)) ∨
    ∃ name group, partitionCall entry = some (name, group) ∧
      (String.ofList name).toLower ∈ hoglakeTransforms ∧
      if (String.ofList name).toLower = "bucket" then parseBucket entry (callArgs group) = .ok t
      else parseTransform entry (String.ofList name).toLower (callArgs group) = .ok t := by
  unfold parseForm at h
  cases hcall : partitionCall entry with
  | none =>
      simp only [hcall] at h
      split_ifs at h with hparen
      cases h
      exact Or.inl ⟨rfl, (not_or.1 hparen).1, (not_or.1 hparen).2, rfl⟩
  | some call =>
      obtain ⟨name, group⟩ := call
      simp only [hcall] at h
      split_ifs at h with hknown hbucket
      · exact Or.inr ⟨name, group, rfl, hknown, by rwa [if_pos hbucket]⟩
      · exact Or.inr ⟨name, group, rfl, hknown, by rwa [if_neg hbucket]⟩

/-- **What the parser takes for an entry is one.** -/
theorem entry_of_parseEntry {t : PartitionTriple} (h : parseEntry entry = .ok t)
    (htrim : Trimmed isSpace entry) : Entry Reads entry t := by
  unfold parseEntry at h
  cases hform : parseForm entry with
  | error e => simp [hform] at h
  | ok triple =>
      simp only [hform] at h
      split_ifs at h with hsafe
      cases h
      rcases parseForm_eq_ok hform with ⟨-, -, -, rfl⟩ | ⟨name, group, hcall, hknown, hargs⟩
      · have hstrip : strip entry = entry := htrim.trim_eq
        rw [← hstrip] at hsafe
        have hbody := isSafeBody_strip hsafe
        rw [hstrip] at hbody
        exact Entry.column hbody
      · obtain ⟨gap, inner, hentry, hgap, hgroup, hline⟩ := partitionCall_eq_some hcall htrim
        obtain ⟨before, after, hinner, hbefore, hafter⟩ := exists_strip inner
        rw [← hgroup] at hinner
        rw [hentry, hinner]
        split_ifs at hargs with hbucket
        · obtain ⟨column, count, n, htwo, hn, hpos, rfl⟩ := parseBucket_eq_ok hargs
          obtain ⟨front, back, hsplit, rfl, rfl⟩ := callArgs_eq_two htwo
          obtain ⟨before', left, hfront, hbefore', hleft⟩ := exists_strip front
          obtain ⟨right, after', hback, hright, hafter'⟩ := exists_strip back
          have hcol := isSafeBody_strip hsafe
          have hreads : Reads (strip back) n.toNat :=
            ⟨trimmed_trim isSpace back, by rw [hn, Int.toNat_of_nonneg hpos.le], by omega⟩
          have hparts : group = (before' ++ strip front ++ left) ++
              ',' :: (right ++ strip back ++ after') := by
            rw [← hfront, ← hback]
            exact hsplit
          have hmem : ∀ part, part ⊆ group → '\n' ∉ part := fun part hpart hm => hline (hpart hm)
          have hleftMem : left ⊆ group := by
            intro c hc
            rw [hparts]
            simp [hc]
          have hrightMem : right ⊆ group := by
            intro c hc
            rw [hparts]
            simp [hc]
          have hbefores : IsSpaces (before ++ before') :=
            fun c hc => (List.mem_append.1 hc).elim (hbefore c) (hbefore' c)
          have hafters : IsSpaces (after' ++ after) :=
            fun c hc => (List.mem_append.1 hc).elim (hafter' c) (hafter c)
          have hentry' : Entry Reads _ _ := Entry.bucket hbucket hgap hbefores hcol
            ⟨hleft, hmem left hleftMem⟩ ⟨hright, hmem right hrightMem⟩ hreads hafters
          rw [hparts]
          simpa only [List.append_assoc, List.cons_append] using hentry'
        · obtain ⟨column, hone, hne, rfl⟩ := parseTransform_eq_ok hargs
          obtain rfl := callArgs_eq_one hone
          have hgroupTrim : strip group = group := by
            rw [hgroup]
            exact (trimmed_trim isSpace inner).trim_eq
          have hcol := isSafeBody_strip hsafe
          rw [hgroupTrim] at hcol ⊢
          have htransform : (String.ofList name).toLower ∈ ["identity", "year", "month", "day", "hour"] := by
            simp only [hoglakeTransforms, List.mem_cons, List.not_mem_nil, or_false] at hknown ⊢
            tauto
          exact Entry.call rfl htransform hgap hbefore hcol hafter

theorem isSpace_apart {c : Char} (h : isSpace c = true) : c ≠ '(' ∧ c ≠ ')' ∧ c ≠ ',' := by
  refine ⟨?_, ?_, ?_⟩
  all_goals
    rintro rfl
    exact absurd h (by decide)

/-- The characters of a column are none that the parser looks for. -/
theorem isSafeBody_apart {col : List Char} (h : isSafeBody col = true) :
    ∀ c ∈ col, isSpace c = false ∧ c ≠ '(' ∧ c ≠ ')' ∧ c ≠ ',' :=
  fun c hc => isIdentifierChar_apart (isIdentifierChar_of_mem h c hc)

theorem ne_nil_of_isSafeBody {col : List Char} (h : isSafeBody col = true) : col ≠ [] := by
  rintro rfl
  cases h

theorem newline_notMem_of_apart {text : List Char}
    (h : ∀ c ∈ text, isSpace c = false ∧ c ≠ '(' ∧ c ≠ ')' ∧ c ≠ ',') : '\n' ∉ text :=
  fun hmem => absurd (h _ hmem).1 (by decide)

/-- A column and a count, with what is between them, have no white space at their ends. -/
theorem trimmed_arguments {col left right count : List Char} {n : ℕ} (hcol : isSafeBody col = true)
    (hcount : Reads count n) : Trimmed isSpace (col ++ left ++ ',' :: (right ++ count)) := by
  constructor
  · intro c hc
    cases col with
    | nil => cases hcol
    | cons d rest =>
        obtain rfl := Option.some.inj hc
        exact (isSafeBody_apart hcol d List.mem_cons_self).1
  · intro c hc
    have hlast : count.getLast? = some c := by
      have hassoc : col ++ left ++ ',' :: (right ++ count)
          = (col ++ left ++ ',' :: right) ++ count := by
        simp only [List.append_assoc, List.cons_append]
      rw [hassoc, List.getLast?_append] at hc
      cases hcountLast : count.getLast? with
      | none => exact absurd (List.getLast?_eq_none_iff.1 hcountLast) hcount.ne_nil
      | some d => rwa [hcountLast, Option.some_or] at hc
    exact hcount.trimmed.last c hlast

/-- What stands between the parentheses of a bucket. -/
theorem strip_arguments {before col count after : List Char} {n : ℕ} (left right : List Char)
    (hbefore : IsSpaces before) (hcol : isSafeBody col = true) (hcount : Reads count n)
    (hafter : IsSpaces after) :
    strip (before ++ (col ++ left ++ ',' :: (right ++ count)) ++ after)
      = col ++ left ++ ',' :: (right ++ count) :=
  trim_append hbefore hafter (trimmed_arguments hcol hcount)

/-- **The parser takes every entry.** -/
theorem parseEntry_of_entry {t : PartitionTriple} (h : Entry Reads entry t) :
    parseEntry entry = .ok t := by
  have hform : ∀ triple, parseForm entry = .ok triple →
      matchesSafeIdentifier triple.1 = true → parseEntry entry = .ok triple := by
    intro triple htriple hsafe
    simp only [parseEntry, htriple, hsafe, if_true]
  cases h with
  | column hcol =>
      have hapart := isSafeBody_apart hcol
      -- a bare name is no call, and has no parentheses to complain about
      have hcall : partitionCall entry = none := by
        have hchars := isIdentifierChar_of_mem hcol
        have hdrop : entry.dropWhile isIdentifierChar = [] := List.dropWhile_eq_nil_iff.2 hchars
        unfold partitionCall
        simp [hdrop]
      have hparens : ¬ ('(' ∈ entry ∨ ')' ∈ entry) :=
        not_or.2 ⟨fun hc => (hapart _ hc).2.1 rfl, fun hc => (hapart _ hc).2.2.1 rfl⟩
      refine hform _ ?_ (matches_of_isSafeBody hcol)
      simp only [parseForm, hcall, if_neg hparens]
  | @call name gap before col after transform hname htransform hgap hbefore hcol hafter =>
      have hapart := isSafeBody_apart hcol
      have hknown : transform ∈ hoglakeTransforms := by
        simp only [hoglakeTransforms, List.mem_cons, List.not_mem_nil, or_false] at htransform ⊢
        tauto
      have hbucket : transform ≠ "bucket" := by
        rintro rfl
        exact absurd htransform (by decide)
      have hstrip : strip (before ++ col ++ after) = col :=
        trim_append hbefore hafter (trimmed_of_isSafeBody hcol)
      have hargs : callArgs col = [col] := callArgs_one (ne_nil_of_isSafeBody hcol)
        (fun hc => (hapart _ hc).2.2.2 rfl) (trimmed_of_isSafeBody hcol).trim_eq
      have hline : '\n' ∉ strip (before ++ col ++ after) := by
        rw [hstrip]
        exact newline_notMem_of_apart hapart
      have hcall := partitionCall_call (isSafeBody_of_transform hname hknown) hgap hline
      rw [hstrip] at hcall
      have hempty : col.isEmpty = false := by simpa using ne_nil_of_isSafeBody hcol
      refine hform _ ?_ (matches_of_isSafeBody hcol)
      simp only [parseForm, hcall, hname, hknown, not_true_eq_false, if_false, if_neg hbucket, hargs,
        parseTransform, hempty, Bool.false_eq_true]
  | @bucket name gap before col left right count after n hname hgap hbefore hcol hleft hright hcount
      hafter =>
      have hapart := isSafeBody_apart hcol
      have hcountApart := hcount.apart
      have hknown : "bucket" ∈ hoglakeTransforms := by decide
      have hstrip := strip_arguments left right hbefore hcol hcount hafter
      have hline : '\n' ∉ strip (before ++ (col ++ left ++ ',' :: (right ++ count)) ++ after) := by
        rw [hstrip]
        simp only [List.mem_append, List.mem_cons, not_or]
        exact ⟨⟨newline_notMem_of_apart hapart, hleft.2⟩, by decide, hright.2,
          newline_notMem_of_apart hcountApart⟩
      have hcall := partitionCall_call (isSafeBody_of_transform hname hknown) hgap hline
      rw [hstrip] at hcall
      -- the comma between the arguments is the only one
      have hfront : ',' ∉ col ++ left := by
        rw [List.mem_append, not_or]
        exact ⟨fun hc => (hapart _ hc).2.2.2 rfl, fun hc => (isSpace_apart (hleft.1 _ hc)).2.2 rfl⟩
      have hback : ',' ∉ right ++ count := by
        rw [List.mem_append, not_or]
        exact ⟨fun hc => (isSpace_apart (hright.1 _ hc)).2.2 rfl,
          fun hc => (hcountApart _ hc).2.2.2 rfl⟩
      have hcolumn : strip (col ++ left) = col := by
        have htrim := trim_append (a := []) (by simp) hleft.1 (trimmed_of_isSafeBody hcol)
        simpa [strip] using htrim
      have hnumber : strip (right ++ count) = count := by
        have htrim := trim_append (b := []) hright.1 (by simp) hcount.trimmed
        simpa [strip] using htrim
      have hargs : callArgs (col ++ left ++ ',' :: (right ++ count)) = [col, count] := by
        rw [callArgs_two hfront hback, hcolumn, hnumber]
      have hpos : ¬ (n : ℤ) ≤ 0 := by
        have := hcount.pos
        omega
      refine hform _ ?_ (matches_of_isSafeBody hcol)
      simp only [parseForm, hcall, hname, hknown, not_true_eq_false, if_false, if_true, hargs,
        parseBucket, hcount.reads, if_neg hpos, Int.toNat_natCast]

/-- An entry is split nowhere. -/
theorem closed_of_entry {t : PartitionTriple} (h : Entry Reads entry t) : Closed entry := by
  have hspaces : ∀ text, IsSpaces text → Closed text :=
    fun text htext => closed_of_flat fun c hc => isSpace_apart (htext c hc)
  have hsafe : ∀ text, isSafeBody text = true → Closed text :=
    fun text htext => closed_of_flat fun c hc => (isSafeBody_apart htext c hc).2
  have hinner : ∀ text, IsSpaces text → ∀ c ∈ text, c ≠ '(' ∧ c ≠ ')' :=
    fun text htext c hc => ⟨(isSpace_apart (htext c hc)).1, (isSpace_apart (htext c hc)).2.1⟩
  cases h with
  | column hcol => exact hsafe _ hcol
  | call hname htransform hgap hbefore hcol hafter =>
      have hknown : ∀ t ∈ ["identity", "year", "month", "day", "hour"], t ∈ hoglakeTransforms := by
        decide
      refine (hsafe _ (isSafeBody_of_transform hname (hknown _ htransform))).append
        ((hspaces _ hgap).append (closed_of_parens ?_))
      intro c hc
      simp only [List.mem_append] at hc
      rcases hc with (hc | hc) | hc
      · exact hinner _ hbefore c hc
      · exact ⟨(isSafeBody_apart hcol c hc).2.1, (isSafeBody_apart hcol c hc).2.2.1⟩
      · exact hinner _ hafter c hc
  | bucket hname hgap hbefore hcol hleft hright hcount hafter =>
      refine (hsafe _ (isSafeBody_of_transform hname (by decide))).append
        ((hspaces _ hgap).append (closed_of_parens ?_))
      intro c hc
      simp only [List.mem_append, List.mem_cons] at hc
      rcases hc with (hc | (hc | hc) | rfl | hc | hc) | hc
      · exact hinner _ hbefore c hc
      · exact ⟨(isSafeBody_apart hcol c hc).2.1, (isSafeBody_apart hcol c hc).2.2.1⟩
      · exact hinner _ hleft.1 c hc
      · decide
      · exact hinner _ hright.1 c hc
      · exact ⟨(hcount.apart c hc).2.1, (hcount.apart c hc).2.2.1⟩
      · exact hinner _ hafter c hc

/-! ## The setting -/

variable {raw : String} {fields : List PartitionTriple}

theorem parseEntries_eq_ok {seen : List PartitionTriple} {entries : List (List Char)} :
    parseEntries seen entries = .ok fields ↔
      List.Forall₂ (fun entry t => parseEntry entry = .ok t) entries fields ∧ fields.Nodup ∧
        ∀ t ∈ fields, t ∉ seen := by
  induction entries generalizing seen fields with
  | nil => cases fields <;> simp [parseEntries]
  | cons entry rest ih =>
      rw [parseEntries]
      cases hentry : parseEntry entry with
      | error e =>
          constructor
          · intro h
            cases h
          · rintro ⟨hall, -⟩
            cases hall with
            | cons hhead _ => simp [hentry] at hhead
      | ok triple =>
          by_cases hseen : triple ∈ seen
          · simp only [hseen, if_true]
            constructor
            · intro h
              cases h
            · rintro ⟨hall, -, hnew⟩
              cases hall with
              | cons hhead _ =>
                  obtain rfl := Except.ok.inj (hentry.symm.trans hhead)
                  exact absurd hseen (hnew _ List.mem_cons_self)
          · simp only [hseen, if_false]
            constructor
            · intro h
              cases hrest : parseEntries (triple :: seen) rest with
              | error e => simp [hrest, Except.map] at h
              | ok others =>
                  rw [hrest] at h
                  cases h
                  obtain ⟨hall, hnodup, hnew⟩ := ih.1 hrest
                  refine ⟨List.Forall₂.cons hentry hall,
                    List.nodup_cons.2 ⟨fun hmem => hnew _ hmem List.mem_cons_self, hnodup⟩, ?_⟩
                  intro t ht
                  rcases List.mem_cons.1 ht with rfl | ht
                  · exact hseen
                  · exact fun hmem => hnew t ht (List.mem_cons_of_mem _ hmem)
            · rintro ⟨hall, hnodup, hnew⟩
              cases hall with
              | @cons _ t _ others hhead htail =>
                  obtain rfl := Except.ok.inj (hentry.symm.trans hhead)
                  obtain ⟨hfresh, hnodup⟩ := List.nodup_cons.1 hnodup
                  have hrest := ih.2 ⟨htail, hnodup, fun t ht hmem => by
                    rcases List.mem_cons.1 hmem with rfl | hmem
                    · exact hfresh ht
                    · exact hnew t (List.mem_cons_of_mem _ ht) hmem⟩
                  rw [hrest]
                  rfl

/-- **The parser accepts what the grammar spells.** -/
theorem parseHoglakePartitionBy_eq_ok :
    parseHoglakePartitionBy raw = .ok fields ↔ Spells Reads raw fields := by
  unfold parseHoglakePartitionBy Spells
  simp only
  constructor
  · intro h
    split_ifs at h with hempty
    obtain ⟨hall, hnodup, -⟩ := parseEntries_eq_ok.1 h
    refine ⟨splitLoop 0 [] raw.toList, (intercalate_splitLoop 0 [] raw.toList).symm, ?_, ?_, hnodup⟩
    · -- each entry is a stripped piece
      have hstripped : ∀ entry ∈ splitTopLevelCommas raw.toList, Trimmed isSpace entry := by
        intro entry hentry
        obtain ⟨piece, -, rfl⟩ := List.mem_map.1 (List.mem_of_mem_filter hentry)
        exact trimmed_trim isSpace piece
      exact (List.forall₂_and_left _ _ |>.2 ⟨hstripped, hall⟩).imp
        fun entry t ⟨htrim, hparse⟩ => entry_of_parseEntry hparse htrim
    · rintro rfl
      rw [List.forall₂_nil_right_iff] at hall
      rw [hall] at hempty
      exact hempty rfl
  · rintro ⟨pieces, hraw, hall, hne, hnodup⟩
    have hclosed : ∀ piece ∈ pieces, Closed piece := by
      intro piece hpiece
      obtain ⟨a, b, heq, ha, hb⟩ := exists_strip piece
      have hmiddle : Closed (strip piece) := by
        by_cases hnil : strip piece = []
        · rw [hnil]
          exact closed_of_flat (by simp)
        · have hmem : strip piece ∈ (pieces.map strip).filter (!·.isEmpty) :=
            List.mem_filter.2 ⟨List.mem_map_of_mem hpiece, by simpa using hnil⟩
          obtain ⟨t, -, hentry⟩ := exists_of_forall₂_left hall hmem
          exact closed_of_entry hentry
      rw [heq]
      exact ((closed_of_flat fun c hc => isSpace_apart (ha c hc)).append hmiddle).append
        (closed_of_flat fun c hc => isSpace_apart (hb c hc))
    have hpieces : pieces ≠ [] := by
      rintro rfl
      rw [List.map_nil, List.filter_nil, List.forall₂_nil_left_iff] at hall
      exact hne hall
    have hsplit : splitTopLevelCommas raw.toList = (pieces.map strip).filter (!·.isEmpty) := by
      rw [splitTopLevelCommas, hraw, splitLoop_intercalate hclosed hpieces]
    rw [hsplit]
    have hentries : ((pieces.map strip).filter (!·.isEmpty)).isEmpty = false := by
      rw [List.isEmpty_eq_false_iff]
      intro hnil
      rw [hnil, List.forall₂_nil_left_iff] at hall
      exact hne hall
    rw [if_neg (by rw [hentries]; decide)]
    exact parseEntries_eq_ok.2 ⟨hall.imp fun _ _ => parseEntry_of_entry, hnodup, by simp⟩

/-! ## The renderers -/

/-- A triple that the parser can give, over a safe identifier. -/
structure IsTriple (t : PartitionTriple) : Prop where
  column : isSafeBody t.1.toList = true
  transform : t.2.1 ∈ hoglakeTransforms
  bucket : t.2.1 = "bucket" ↔ t.2.2.isSome = true
  pos : ∀ n ∈ t.2.2, 0 < n

/-- `str()` writes its parameter. -/
def IsShort (t : PartitionTriple) : Prop := ∀ n ∈ t.2.2, n.repr.length ≤ 4300

theorem describeField_isSome {t : PartitionTriple} :
    (∃ text, describeField t.2.1 t.1 t.2.2 = some text) ↔ IsShort t := by
  obtain ⟨column, transform, param⟩ := t
  cases param with
  | none => simp [describeField, IsShort]
  | some n => simp [describeField, IsShort, pyStr]

/-- What is rendered is an entry of the grammar. -/
theorem entry_of_describeField {t : PartitionTriple} {text : String} (ht : IsTriple t)
    (h : describeField t.2.1 t.1 t.2.2 = some text) : Entry Reads text.toList t := by
  obtain ⟨column, transform, param⟩ := t
  obtain ⟨hcol, htransform, hbucket, hpos⟩ := ht
  simp only at hcol htransform hbucket hpos
  have hlower : ∀ t ∈ hoglakeTransforms, (String.ofList t.toList).toLower = t := by decide +kernel
  have hname := hlower transform htransform
  have hnone : IsSpaces [] := by simp [IsSpaces]
  cases param with
  | none =>
      have hplain : transform ∈ ["identity", "year", "month", "day", "hour"] := by
        have hne : transform ≠ "bucket" := fun heq => by cases hbucket.1 heq
        simp only [hoglakeTransforms, List.mem_cons, List.not_mem_nil, or_false] at htransform ⊢
        tauto
      obtain rfl := Option.some.inj h
      have hentry : Entry Reads _ _ := Entry.call hname hplain hnone hnone hcol hnone
      simpa [String.toList_append] using hentry
  | some n =>
      obtain rfl : transform = "bucket" := hbucket.2 rfl
      simp only [describeField, pyStr] at h
      split_ifs at h with hlong
      · cases h
      · obtain rfl := Option.some.inj h
        have hblank : IsBlanks [' '] := ⟨by simp [IsSpaces]; decide, by decide⟩
        have hempty : IsBlanks [] := ⟨hnone, by simp⟩
        have hreads := reads_repr (hpos n rfl) (by omega)
        have hentry := Entry.bucket hname hnone hnone hcol hempty hblank hreads hnone
        simpa [String.toList_append] using hentry

theorem trimmed_of_entry {t : PartitionTriple} (h : Entry Reads entry t) :
    Trimmed isSpace entry ∧ entry ≠ [] := by
  -- a call begins with its name and ends with a parenthesis
  have hcall : ∀ {name : List Char}, isSafeBody name = true → ∀ rest : List Char,
      Trimmed isSpace (name ++ (rest ++ [')'])) ∧ name ++ (rest ++ [')']) ≠ [] := by
    intro name hname rest
    refine ⟨⟨?_, ?_⟩, by simp⟩
    · intro c hc
      cases name with
      | nil => cases hname
      | cons d tail =>
          obtain rfl := Option.some.inj hc
          exact (isSafeBody_apart hname d List.mem_cons_self).1
    · intro c hc
      rw [← List.append_assoc, List.getLast?_concat] at hc
      obtain rfl := Option.some.inj hc
      decide
  cases h with
  | column hcol => exact ⟨trimmed_of_isSafeBody hcol, ne_nil_of_isSafeBody hcol⟩
  | @call name gap before col after transform hname htransform hgap hbefore hcol hafter =>
      have hknown : ∀ t ∈ ["identity", "year", "month", "day", "hour"], t ∈ hoglakeTransforms := by
        decide
      have h := hcall (isSafeBody_of_transform hname (hknown _ htransform))
        (gap ++ '(' :: (before ++ col ++ after))
      simpa only [List.append_assoc, List.cons_append] using h
  | @bucket name gap before col left right count after n hname =>
      have h := hcall (isSafeBody_of_transform hname (by decide))
        (gap ++ '(' :: (before ++ (col ++ left ++ ',' :: (right ++ count)) ++ after))
      simpa only [List.append_assoc, List.cons_append] using h

theorem intercalate_comma_space (a : List Char) (l : List (List Char)) :
    [',', ' '].intercalate (a :: l) = [','].intercalate (a :: l.map (' ' :: ·)) := by
  induction l generalizing a with
  | nil => simp
  | cons b rest ih =>
      have hspace : [',', ' '].intercalate (a :: b :: rest)
          = a ++ ',' :: ' ' :: [',', ' '].intercalate (b :: rest) := by
        rw [List.intercalate_cons_cons]
        simp
      have hhead : ∀ (front : List Char) (back : List (List Char)) (c : Char),
          [','].intercalate ((c :: front) :: back) = c :: [','].intercalate (front :: back) := by
        intro front back c
        cases back <;> simp [List.intercalate_cons_cons]
      rw [hspace, ih, List.map_cons, intercalate_cons (List.cons_ne_nil _ _), hhead]

/-- **What is rendered is parsed back.** -/
theorem parse_describe {text : String} (hne : fields ≠ []) (hnodup : fields.Nodup)
    (hvalid : ∀ t ∈ fields, IsTriple t) (h : describeConfiguredPartition fields = some text) :
    parseHoglakePartitionBy text = .ok fields := by
  unfold describeConfiguredPartition at h
  obtain ⟨texts, htexts, rfl⟩ := Option.map_eq_some_iff.1 h
  have hentries : List.Forall₂ (Entry Reads) (texts.map String.toList) fields := by
    rw [List.forall₂_map_left_iff]
    have hall := mapM_eq_some_iff.1 htexts
    exact ((List.forall₂_and_left _ _).2 ⟨hvalid, hall⟩).flip.imp
      fun text t ⟨ht, hdescribe⟩ => entry_of_describeField ht hdescribe
  have htrimmed : ∀ s ∈ texts, Trimmed isSpace s.toList ∧ s.toList ≠ [] := by
    intro s hs
    obtain ⟨t, -, hentry⟩ := exists_of_forall₂_left hentries (List.mem_map_of_mem hs)
    exact trimmed_of_entry hentry
  obtain ⟨first, rest, rfl⟩ : ∃ first rest, texts = first :: rest := by
    cases texts with
    | nil =>
        rw [List.map_nil, List.forall₂_nil_left_iff] at hentries
        exact absurd hentries hne
    | cons first rest => exact ⟨first, rest, rfl⟩
  refine parseHoglakePartitionBy_eq_ok.2
    ⟨first.toList :: rest.map (fun s => ' ' :: s.toList), ?_, ?_, hne, hnodup⟩
  · rw [String.toList_intercalate, List.map_cons]
    exact (intercalate_comma_space _ _).trans (by rw [List.map_map]; rfl)
  · have hstrip : (first.toList :: rest.map (fun s => ' ' :: s.toList)).map strip
        = (first :: rest).map String.toList := by
      rw [List.map_cons, List.map_cons, List.map_map]
      congr 1
      · exact (htrimmed first List.mem_cons_self).1.trim_eq
      · refine List.map_congr_left fun s hs => ?_
        have hspace : ∀ c ∈ [' '], isSpace c = true := by
          rw [List.forall_mem_singleton]
          decide
        have htrim := trim_append (b := []) hspace (by simp)
          (htrimmed s (List.mem_cons_of_mem _ hs)).1
        simpa [strip] using htrim
    have hfilter : ((first :: rest).map String.toList).filter (!·.isEmpty)
        = (first :: rest).map String.toList := by
      refine List.filter_eq_self.2 fun piece hpiece => ?_
      obtain ⟨s, hs, rfl⟩ := List.mem_map.1 hpiece
      simpa using (htrimmed s hs).2
    rw [hstrip, hfilter]
    exact hentries

theorem describeConfiguredPartition_isSome :
    (∃ text, describeConfiguredPartition fields = some text) ↔ ∀ t ∈ fields, IsShort t := by
  unfold describeConfiguredPartition
  constructor
  · rintro ⟨text, h⟩ t ht
    obtain ⟨texts, htexts, -⟩ := Option.map_eq_some_iff.1 h
    obtain ⟨s, -, hs⟩ := exists_of_mapM htexts ht
    exact describeField_isSome.1 ⟨s, hs⟩
  · intro hshort
    cases htexts : fields.mapM fun field => describeField field.2.1 field.1 field.2.2 with
    | none =>
        obtain ⟨t, ht, hnone⟩ := mapM_eq_none_iff.1 htexts
        obtain ⟨s, hs⟩ := describeField_isSome.2 (hshort t ht)
        rw [hs] at hnone
        cases hnone
    | some texts => exact ⟨_, rfl⟩

/-- A live spec over the live columns that is these triples. -/
def Corresponds (spec : List PartitionField) (liveColumns : List Column)
    (fields : List PartitionTriple) : Prop :=
  List.Forall₂ (fun f t => f.transform = t.2.1 ∧ f.transformParam = t.2.2 ∧
    nameOfFieldId liveColumns f.sourceFieldId = t.1) spec fields

theorem describePartition_of_corresponds {spec : List PartitionField} {liveColumns : List Column}
    (h : Corresponds spec liveColumns fields) :
    describePartition spec liveColumns = describeConfiguredPartition fields := by
  unfold describePartition describeConfiguredPartition
  congr 1
  induction h with
  | nil => rfl
  | cons hhead _ ih =>
      obtain ⟨htransform, hparam, hcolumn⟩ := hhead
      rw [List.mapM_cons, List.mapM_cons, ih, htransform, hparam, hcolumn]

/-! ## The property -/

/-- Accepted is what the grammar spells with counts that `int()` reads, and what either renderer
    writes is parsed back. They write all counts that `str()` does. -/
theorem parseHoglakePartitionBy_grammar :
    (∀ raw fields, parseHoglakePartitionBy raw = .ok fields ↔ Spells Reads raw fields) ∧
    ∀ fields : List PartitionTriple, fields ≠ [] → fields.Nodup → (∀ t ∈ fields, IsTriple t) →
      ((∃ text, describeConfiguredPartition fields = some text) ↔ ∀ t ∈ fields, IsShort t) ∧
      (∀ text, describeConfiguredPartition fields = some text →
        parseHoglakePartitionBy text = .ok fields) ∧
      ∀ spec liveColumns, Corresponds spec liveColumns fields →
        describePartition spec liveColumns = describeConfiguredPartition fields := by
  refine ⟨fun raw fields => parseHoglakePartitionBy_eq_ok, fun fields hne hnodup hvalid => ⟨?_, ?_, ?_⟩⟩
  · exact describeConfiguredPartition_isSome
  · exact fun text h => parse_describe hne hnodup hvalid h
  · exact fun spec liveColumns h => describePartition_of_corresponds h

/-- With counts in digits only, an entry has no other characters than these. -/
theorem chars_of_entry {t : PartitionTriple} (h : Entry DigitsOnly entry t) :
    ∀ c ∈ entry, isIdentifierChar c = true ∨ isSpace c = true ∨ c ∈ ['(', ')', ','] := by
  have hknown : ∀ t ∈ ["identity", "year", "month", "day", "hour"], t ∈ hoglakeTransforms := by decide
  intro c hc
  cases h with
  | column hcol => exact Or.inl (isIdentifierChar_of_mem hcol c hc)
  | call hname htransform hgap hbefore hcol hafter =>
      simp only [List.mem_append, List.mem_cons, List.not_mem_nil, or_false] at hc ⊢
      rcases hc with hc | hc | rfl | ((hc | hc) | hc) | rfl
      · exact Or.inl (isIdentifierChar_of_mem (isSafeBody_of_transform hname (hknown _ htransform)) c hc)
      · exact Or.inr (Or.inl (hgap c hc))
      · simp
      · exact Or.inr (Or.inl (hbefore c hc))
      · exact Or.inl (isIdentifierChar_of_mem hcol c hc)
      · exact Or.inr (Or.inl (hafter c hc))
      · simp
  | bucket hname hgap hbefore hcol hleft hright hcount hafter =>
      simp only [List.mem_append, List.mem_cons, List.not_mem_nil, or_false] at hc ⊢
      rcases hc with hc | hc | rfl | ((hc | (hc | hc) | rfl | hc | hc) | hc) | rfl
      · exact Or.inl (isIdentifierChar_of_mem (isSafeBody_of_transform hname (by decide)) c hc)
      · exact Or.inr (Or.inl (hgap c hc))
      · simp
      · exact Or.inr (Or.inl (hbefore c hc))
      · exact Or.inl (isIdentifierChar_of_mem hcol c hc)
      · exact Or.inr (Or.inl (hleft.1 c hc))
      · simp
      · exact Or.inr (Or.inl (hright.1 c hc))
      · exact Or.inl (Bool.or_eq_true_iff.2 (Or.inr (hcount.digits c hc)))
      · exact Or.inr (Or.inl (hafter c hc))
      · simp

/-- A sign is no digit, and is accepted. -/
theorem signed_count_accepted :
    ¬ ∀ raw fields, parseHoglakePartitionBy raw = .ok fields ↔ Spells DigitsOnly raw fields := by
  intro h
  have haccepted : parseHoglakePartitionBy "bucket(team_id, +16)"
      = .ok [("team_id", "bucket", some 16)] := by decide +kernel
  obtain ⟨pieces, hraw, hall, -⟩ := (h _ _).1 haccepted
  have hsign : '+' ∈ [','].intercalate pieces := hraw ▸ by decide
  obtain ⟨piece, hpiece, hplus⟩ := (mem_intercalate hsign).resolve_left (by decide)
  obtain ⟨a, b, heq, ha, hb⟩ := exists_strip piece
  have hstripped : '+' ∈ strip piece := by
    rw [heq, List.mem_append, List.mem_append] at hplus
    rcases hplus with (hplus | hplus) | hplus
    · exact absurd (ha _ hplus) (by decide)
    · exact hplus
    · exact absurd (hb _ hplus) (by decide)
  have hmem : strip piece ∈ (pieces.map strip).filter (!·.isEmpty) :=
    List.mem_filter.2 ⟨List.mem_map_of_mem hpiece, by simpa using List.ne_nil_of_mem hstripped⟩
  obtain ⟨t, -, hentry⟩ := exists_of_forall₂_left hall hmem
  exact absurd (chars_of_entry hentry _ hstripped) (by decide)

end Millpond.Config
