import Millpond.Lib.Trimming
import Millpond.Maintenance.PartitionTuples
import Millpond.Hoglake.Sink

set_option autoImplicit false

/-! # HOGLAKE_PARTITION_BY

`_parse_hoglake_partition_by` reads the setting into `(column, transform, param)` triples. The sink
has two renderers for its own grammar: of the configured triples, and of a live spec. -/

namespace Millpond.Config

open Millpond.Maintenance (isSpace pyInt)
open Millpond.Hoglake (isIdentifierStart matchesSafeIdentifier PartitionField Column)

/-! ## Reading -/

/-- `_HOGLAKE_TRANSFORMS`. -/
def hoglakeTransforms : List String := ["identity", "year", "month", "day", "hour", "bucket"]

/-- A `(column, transform, param)` triple. -/
abbrev PartitionTriple := String × String × Option ℕ

/-- `str.strip`. -/
def strip (text : List Char) : List Char := trim isSpace text

/-- The loop of `_split_top_level_commas`. -/
def splitLoop (depth : ℕ) (current : List Char) : List Char → List (List Char)
  | [] => [current]
  | ch :: rest =>
      let depth := if ch = '(' then depth + 1 else if ch = ')' then depth - 1 else depth
      if ch = ',' ∧ depth = 0 then current :: splitLoop depth [] rest
      else splitLoop depth (current ++ [ch]) rest

/-- `_split_top_level_commas`. -/
def splitTopLevelCommas (raw : List Char) : List (List Char) :=
  ((splitLoop 0 [] raw).map strip).filter (!·.isEmpty)

def isIdentifierChar (c : Char) : Bool := isIdentifierStart c || c.isDigit

/-- `_HOGLAKE_PARTITION_CALL.match(entry)`, with its two groups. The first group and the white space
    after it end at the first character that fits neither; what is between the parentheses is the
    second group between white space, and has no line feed in it. -/
def partitionCall (entry : List Char) : Option (List Char × List Char) :=
  let name := entry.takeWhile isIdentifierChar
  let rest := (entry.dropWhile isIdentifierChar).dropWhile isSpace
  let body := if rest.getLast? = some '\n' then rest.dropLast else rest
  if name.head?.any isIdentifierStart ∧ body.head? = some '(' ∧ 2 ≤ body.length ∧
      body.getLast? = some ')' then
    let args := strip (body.tail.dropLast)
    if '\n' ∈ args then none else some (name, args)
  else none

/-- `call.group(2).split(",")`, stripped. -/
def callArgs (group : List Char) : List (List Char) :=
  if group.isEmpty then [] else (group.splitOn ',').map strip

/-- The `RuntimeError`s of `_parse_hoglake_partition_by`, by what they say after the entry. -/
inductive PartitionByError where
  /-- `HOGLAKE_PARTITION_BY is set but contains no entries`. -/
  | noEntries
  /-- `is malformed`. -/
  | malformed (entry : String)
  /-- `uses unknown transform …`. -/
  | unknownTransform (entry transform : String)
  /-- `must be bucket(col, N)`. -/
  | bucketForm (entry : String)
  /-- `has non-integer bucket count …`. -/
  | nonInteger (entry count : String)
  /-- `has non-positive bucket count …`. -/
  | nonPositive (entry : String) (count : ℤ)
  /-- `must be transform(col)`. -/
  | transformForm (entry transform : String)
  /-- `has unsafe column name …`. -/
  | unsafeColumn (entry column : String)
  /-- `is duplicated`. -/
  | duplicated (entry : String)
deriving DecidableEq, Repr

/-- The `bucket` arm. -/
def parseBucket (entry : List Char) (args : List (List Char)) :
    Except PartitionByError PartitionTriple :=
  match args with
  | [column, count] =>
      match pyInt (String.ofList count) with
      | none => .error (.nonInteger (String.ofList entry) (String.ofList count))
      | some n =>
          if n ≤ 0 then .error (.nonPositive (String.ofList entry) n)
          else .ok (String.ofList column, "bucket", some n.toNat)
  | _ => .error (.bucketForm (String.ofList entry))

/-- The arm of the other transforms. -/
def parseTransform (entry : List Char) (transform : String) (args : List (List Char)) :
    Except PartitionByError PartitionTriple :=
  match args with
  | [column] =>
      if column.isEmpty then .error (.transformForm (String.ofList entry) transform)
      else .ok (String.ofList column, transform, none)
  | _ => .error (.transformForm (String.ofList entry) transform)

/-- The call form, or a bare column. -/
def parseForm (entry : List Char) : Except PartitionByError PartitionTriple :=
  match partitionCall entry with
  | none =>
      if '(' ∈ entry ∨ ')' ∈ entry then .error (.malformed (String.ofList entry))
      else .ok (String.ofList entry, "identity", none)
  | some (name, group) =>
      let transform := (String.ofList name).toLower
      if transform ∉ hoglakeTransforms then
        .error (.unknownTransform (String.ofList entry) transform)
      else if transform = "bucket" then parseBucket entry (callArgs group)
      else parseTransform entry transform (callArgs group)

/-- One entry, with the gate on its column. -/
def parseEntry (entry : List Char) : Except PartitionByError PartitionTriple :=
  match parseForm entry with
  | .error e => .error e
  | .ok triple =>
      if matchesSafeIdentifier triple.1 then .ok triple
      else .error (.unsafeColumn (String.ofList entry) triple.1)

/-- The loop over the entries; `seen` are the triples before. -/
def parseEntries (seen : List PartitionTriple) :
    List (List Char) → Except PartitionByError (List PartitionTriple)
  | [] => .ok []
  | entry :: rest =>
      match parseEntry entry with
      | .error e => .error e
      | .ok triple =>
          if triple ∈ seen then .error (.duplicated (String.ofList entry))
          else (parseEntries (triple :: seen) rest).map (triple :: ·)

/-- `_parse_hoglake_partition_by`. -/
def parseHoglakePartitionBy (raw : String) : Except PartitionByError (List PartitionTriple) :=
  let entries := splitTopLevelCommas raw.toList
  if entries.isEmpty then .error .noEntries else parseEntries [] entries

/-! ## Rendering -/

/-- `str(n)`, `none` for its `ValueError` beyond 4300 digits. -/
def pyStr (n : ℕ) : Option String := if 4300 < n.repr.length then none else some n.repr

/-- `f"{transform}({column}, {param})"`, or without a parameter. -/
def describeField (transform column : String) (param : Option ℕ) : Option String :=
  match param with
  | none => some (transform ++ "(" ++ column ++ ")")
  | some n => (pyStr n).map fun digits => transform ++ "(" ++ column ++ ", " ++ digits ++ ")"

/-- `_describe_configured_partition`. -/
def describeConfiguredPartition (fields : List PartitionTriple) : Option String :=
  (fields.mapM fun field => describeField field.2.1 field.1 field.2.2).map (", ".intercalate ·)

/-- `{col.field_id: name}`, asked for one field id: the last column with it. -/
def nameOfFieldId (liveColumns : List Column) (fieldId : ℕ) : String :=
  match liveColumns.reverse.find? (·.fieldId = fieldId) with
  | some column => column.name
  | none => "field_id=" ++ toString fieldId

/-- `_describe_partition`. -/
def describePartition (spec : List PartitionField) (liveColumns : List Column) : Option String :=
  (spec.mapM fun f =>
    describeField f.transform (nameOfFieldId liveColumns f.sourceFieldId) f.transformParam).map
      (", ".intercalate ·)

end Millpond.Config
