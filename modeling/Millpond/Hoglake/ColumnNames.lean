import Millpond.Hoglake.Sink
import Millpond.Lib.Options

set_option autoImplicit false

/-! # The names that reach the server

`_drop_unwritable_columns` is there so that no payload key can make a `create_table` or an
`add_column` fail for its name. What it lets through is the server's own rule, but for one character:
the `$` of `SAFE_IDENTIFIER` also matches before a final line feed. -/

namespace Millpond.Hoglake

variable {ρ V : Type} {be : Backend ρ V} {now : ℚ} {batch : Batch ρ V} {name : String}

/-! ## The rules -/

/-- `[A-Za-z_][A-Za-z0-9_-]{0,127}`, the whole string. -/
def isServerName (name : String) : Bool :=
  match name.toList with
  | [] => false
  | c :: rest => isIdentifierStart c &&
      (rest.all fun d => isIdentifierStart d || d.isDigit || d = '-') && rest.length ≤ 127

/-- It starts with `_hog`, in any case. -/
def isReservedName (name : String) : Bool :=
  hogReservedPrefix.toList.isPrefixOf name.toLower.toList

/-- `[a-zA-Z_][a-zA-Z0-9_]*`, all the characters. -/
def isSafeBody : List Char → Bool
  | [] => false
  | c :: rest => isIdentifierStart c && rest.all fun d => isIdentifierStart d || d.isDigit

/-- Millpond's rule up to a final line feed, within the cap, and not reserved. -/
def SlipsThrough (name : String) : Prop :=
  ∃ body, name.toList = body ++ ['\n'] ∧ isSafeBody body = true ∧ body.length ≤ 127 ∧
    isReservedName name = false

/-- The gate as it is meant: what survives is for the server, what goes breaks a rule, and the DDL of
    the flush names nothing else. -/
structure GateHolds (be : Backend ρ V) (now : ℚ) (batch : Batch ρ V) : Prop where
  survivors : ∀ name ∈ (dropUnwritableColumns batch).names,
    isServerName name = true ∧ isReservedName name = false
  dropped : ∀ name ∈ batch.names, name ∉ (dropUnwritableColumns batch).names →
    matchesSafeIdentifier name = false ∨ maxColumnNameLen < name.length ∨ isReservedName name = true
  /-- The schema that `_create_table` sends. -/
  created : ∀ fields, tableSchemaForBatch (stampInsertedAt be now (dropUnwritableColumns batch))
    = some fields → ∀ field ∈ fields, isServerName field.1 = true ∧ isReservedName field.1 = false
  /-- The fields that `_add_columns` can send. -/
  added : ∀ column ∈ (stampInsertedAt be now (dropUnwritableColumns batch)).columns,
    isServerName column.name = true ∧ isReservedName column.name = false

/-! ## One name -/

theorem isWritable_iff : isWritable name = true ↔
    isReservedName name = false ∧ matchesSafeIdentifier name = true ∧
      name.length ≤ maxColumnNameLen := by
  simp only [isWritable, isReservedName, Bool.and_eq_true, Bool.not_eq_true', decide_eq_true_eq,
    and_assoc]

theorem newline_notMem_of_isSafeBody {body : List Char} (h : isSafeBody body = true) :
    '\n' ∉ body := by
  have hstart : isIdentifierStart '\n' = false := by decide
  have hdigit : '\n'.isDigit = false := by decide
  cases body with
  | nil => simp
  | cons c rest =>
      simp only [isSafeBody, Bool.and_eq_true, List.all_eq_true] at h
      rintro hmem
      rcases List.mem_cons.1 hmem with rfl | hmem
      · rw [hstart] at h
        cases h.1
      · have hd := h.2 _ hmem
        rw [hstart, hdigit] at hd
        cases hd

/-- What `$` allows. -/
theorem matchesSafeIdentifier_iff : matchesSafeIdentifier name = true ↔
    isSafeBody name.toList = true ∨
      ∃ body, name.toList = body ++ ['\n'] ∧ isSafeBody body = true := by
  have hmatch : matchesSafeIdentifier name
      = isSafeBody (if name.toList.getLast? = some '\n' then name.toList.dropLast
          else name.toList) := rfl
  rw [hmatch]
  split_ifs with hlast
  · have htext := List.dropLast_append_getLast? _ hlast
    constructor
    · exact fun h => Or.inr ⟨_, htext.symm, h⟩
    · rintro (h | ⟨body, hbody, h⟩)
      · have hmem : '\n' ∈ name.toList := List.mem_of_getLast? hlast
        exact absurd hmem (newline_notMem_of_isSafeBody h)
      · rwa [hbody, List.dropLast_concat]
  · constructor
    · exact Or.inl
    · rintro (h | ⟨body, hbody, -⟩)
      · exact h
      · rw [hbody, List.getLast?_concat] at hlast
        exact absurd rfl hlast

theorem isServerName_of_isSafeBody (h : isSafeBody name.toList = true)
    (hlength : name.length ≤ maxColumnNameLen) : isServerName name = true := by
  have hlen : name.toList.length ≤ 128 := hlength
  unfold isServerName
  cases htext : name.toList with
  | nil =>
      rw [htext] at h
      cases h
  | cons c rest =>
      rw [htext] at h hlen
      simp only [isSafeBody, Bool.and_eq_true, List.all_eq_true, Bool.or_eq_true] at h
      simp only [List.length_cons] at hlen
      simp only [Bool.and_eq_true, List.all_eq_true, Bool.or_eq_true, decide_eq_true_eq]
      exact ⟨⟨h.1, fun d hd => Or.inl (h.2 d hd)⟩, by omega⟩

theorem isServerName_newline {body : List Char} (htext : name.toList = body ++ ['\n']) :
    isServerName name = false := by
  have hstart : isIdentifierStart '\n' = false := by decide
  unfold isServerName
  cases body with
  | nil =>
      simp only [htext, List.nil_append, hstart, Bool.false_and]
  | cons c rest =>
      simp only [htext, List.cons_append, List.all_append, List.all_cons, List.all_nil, hstart]
      simp

/-- A writable name is the server's, or slips through. -/
theorem isWritable_cases (h : isWritable name = true) :
    (isServerName name = true ∧ isReservedName name = false) ∨ SlipsThrough name := by
  obtain ⟨hreserved, hmatch, hlength⟩ := isWritable_iff.1 h
  rcases matchesSafeIdentifier_iff.1 hmatch with hsafe | ⟨body, htext, hsafe⟩
  · exact Or.inl ⟨isServerName_of_isSafeBody hsafe hlength, hreserved⟩
  · have hlen : name.toList.length ≤ 128 := hlength
    rw [htext, List.length_append, List.length_singleton] at hlen
    exact Or.inr ⟨body, htext, hsafe, by omega, hreserved⟩

theorem SlipsThrough.isWritable (h : SlipsThrough name) : isWritable name = true := by
  obtain ⟨body, htext, hsafe, hlength, hreserved⟩ := h
  refine isWritable_iff.2 ⟨hreserved, matchesSafeIdentifier_iff.2 (Or.inr ⟨body, htext, hsafe⟩), ?_⟩
  show name.toList.length ≤ 128
  rw [htext, List.length_append, List.length_singleton]
  omega

theorem SlipsThrough.not_isServerName (h : SlipsThrough name) : isServerName name = false := by
  obtain ⟨body, htext, -⟩ := h
  exact isServerName_newline htext

theorem insertedAt_holds : isServerName insertedAt = true ∧ isReservedName insertedAt = false := by
  decide +kernel

/-! ## A batch -/

/-- `drop_columns` on a table, whose names are distinct. -/
theorem dropColumns_unwritable (hdistinct : batch.names.Nodup) :
    batch.dropColumns (batch.names.filter (!isWritable ·)) = some (dropUnwritableColumns batch) :=
  Batch.dropColumns_of_nodup hdistinct (hdistinct.filter _)
    List.filter_sublist.subset

theorem mem_names_dropUnwritableColumns : name ∈ (dropUnwritableColumns batch).names ↔
    name ∈ batch.names ∧ isWritable name = true := by
  have hdropped : name ∈ batch.names → (name ∉ batch.names.filter (!isWritable ·) ↔
      isWritable name = true) := by
    intro hmem
    simp only [List.mem_filter, hmem, true_and, Bool.not_eq_true', Bool.not_eq_false]
  constructor
  · intro h
    obtain ⟨column, hcolumn, rfl⟩ := List.mem_map.1 h
    obtain ⟨hmem, hkeep⟩ := List.mem_filter.1 hcolumn
    have hname := List.mem_map_of_mem (f := (·.name)) hmem
    exact ⟨hname, (hdropped hname).1 (of_decide_eq_true hkeep)⟩
  · rintro ⟨hname, hwritable⟩
    obtain ⟨column, hcolumn, rfl⟩ := List.mem_map.1 hname
    have hkept : column ∈ (dropUnwritableColumns batch).columns :=
      List.mem_filter.2 ⟨hcolumn, decide_eq_true ((hdropped hname).2 hwritable)⟩
    exact List.mem_map_of_mem (f := (·.name)) hkept

/-- The created table has the columns of the batch, and `_inserted_at`. -/
theorem names_tableSchemaForBatch {fields : List (String × HogType)}
    (h : tableSchemaForBatch batch = some fields) :
    ∀ field ∈ fields, field.1 ∈ batch.names ∨ field.1 = insertedAt := by
  unfold tableSchemaForBatch at h
  obtain ⟨mapped, hmapped, rfl⟩ := Option.map_eq_some_iff.1 h
  have hnames : ∀ field ∈ mapped, field.1 ∈ batch.names := by
    intro field hfield
    obtain ⟨column, hcolumn, heq⟩ := exists_of_mem_mapM hmapped hfield
    obtain ⟨type, -, rfl⟩ := Option.map_eq_some_iff.1 heq
    exact List.mem_map_of_mem hcolumn
  intro field hfield
  split_ifs at hfield with hinserted
  · exact Or.inl (hnames field hfield)
  · rcases List.mem_append.1 hfield with hfield | hfield
    · exact Or.inl (hnames field hfield)
    · exact Or.inr (by rw [List.mem_singleton.1 hfield])

/-- **The gate holds but for a final line feed.** -/
theorem dropUnwritableColumns_holds_iff :
    GateHolds be now batch ↔ ∀ name ∈ batch.names, ¬ SlipsThrough name := by
  constructor
  · intro h name hname hslips
    have hsurvives := mem_names_dropUnwritableColumns.2 ⟨hname, hslips.isWritable⟩
    have hserver := (h.survivors name hsurvives).1
    rw [hslips.not_isServerName] at hserver
    cases hserver
  · intro h
    have hsurvivors : ∀ name ∈ (dropUnwritableColumns batch).names,
        isServerName name = true ∧ isReservedName name = false := by
      intro name hname
      obtain ⟨hmem, hwritable⟩ := mem_names_dropUnwritableColumns.1 hname
      exact (isWritable_cases hwritable).resolve_right (h name hmem)
    have hstamped : ∀ name ∈ (stampInsertedAt be now (dropUnwritableColumns batch)).names,
        isServerName name = true ∧ isReservedName name = false := by
      intro name hname
      have hname' : name ∈ (dropUnwritableColumns batch).names ++ [insertedAt] := by
        rwa [Batch.names, stampInsertedAt, Batch.appendColumn, List.map_append] at hname
      rcases List.mem_append.1 hname' with hname' | hname'
      · exact hsurvivors name hname'
      · rw [List.mem_singleton.1 hname']
        exact insertedAt_holds
    exact {
      survivors := hsurvivors
      dropped := by
        intro name hname hgone
        have hnot : isWritable name ≠ true :=
          fun hwritable => hgone (mem_names_dropUnwritableColumns.2 ⟨hname, hwritable⟩)
        rw [ne_eq, isWritable_iff, not_and_or, not_and_or] at hnot
        rcases hnot with hreserved | hmatch | hlength
        · exact Or.inr (Or.inr (by simpa using hreserved))
        · exact Or.inl (by simpa using hmatch)
        · exact Or.inr (Or.inl (Nat.lt_of_not_le hlength))
      created := by
        intro fields hfields field hfield
        rcases names_tableSchemaForBatch hfields field hfield with hname | hname
        · exact hstamped field.1 hname
        · rw [hname]
          exact insertedAt_holds
      added := fun column hcolumn => hstamped column.name (List.mem_map_of_mem hcolumn) }

/-! ## A line feed -/

/-- A batch of one row with one column. -/
def columnBatch (name : String) : Batch Unit Unit := ⟨[()], [⟨name, .of .string, fun _ => none⟩]⟩

/-- A backend over values that say nothing. -/
def unitBackend : Backend Unit Unit where
  cast := fun _ _ value => some value
  transform := fun _ _ _ _ => none
  uuidText := id
  uuidBytes := some
  timestamp := fun _ => ()
  nbytes := fun batch => batch.rows.length

/-- The key `a`, with a line feed after it, is in the schema of `create_table`. -/
theorem newline_slips : ¬ GateHolds unitBackend 0 (columnBatch "a\n") := by
  rw [dropUnwritableColumns_holds_iff]
  exact fun h => h "a\n" (by decide) ⟨['a'], by decide, by decide, by decide, by decide +kernel⟩

end Millpond.Hoglake
