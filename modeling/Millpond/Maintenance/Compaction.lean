import Millpond.Maintenance.PartitionTuples

set_option autoImplicit false

/-! # A compaction run

`compact`: one merge CALL after another, for one table or for the tables of the catalog, under a budget
of files and with `target_file_size` set for the while. What a CALL merges is left to the catalog; so
are the errors it may end with. Tuning, heartbeat and log are left out. -/

namespace Millpond.Maintenance

/-! ## `target_file_size` -/

/-- `DEFAULT_TARGET_FILE_SIZE`. -/
def defaultTargetFileSize : String := "128MiB"

/-- The units of `_bytes_to_human`, the largest first. -/
def sizeUnits : List (String × ℕ) :=
  [("TiB", 1099511627776), ("GiB", 1073741824), ("MiB", 1048576), ("KiB", 1024)]

/-- `_bytes_to_human`. -/
def bytesToHuman (stored : String) : Option String :=
  match pyInt stored with
  | none => none
  | some n =>
      if n ≤ 0 then none
      else
        sizeUnits.findSome? fun u =>
          if u.2 ≤ n.toNat ∧ n.toNat % u.2 = 0 then some ((n.toNat / u.2).repr ++ u.1) else none

/-- `_sanitize_setting_value`: `_SETTING_VALUE_RE`, whose `$` also matches before a final newline. -/
def isSettingValue (value : String) : Bool :=
  let body :=
    if value.toList.getLast? = some '\n' then value.toList.dropLast else value.toList
  !body.isEmpty && body.all fun c =>
    ('a' ≤ c ∧ c ≤ 'z') || ('A' ≤ c ∧ c ≤ 'Z') || ('0' ≤ c ∧ c ≤ '9') ||
      c ∈ ['_', '.', ':', '/', '-', '@', '+', '=']

/-- What to set again at the end, from the row of the GLOBAL option. -/
def restoreText : Option String → String
  | none => defaultTargetFileSize
  | some stored =>
      if stored.isEmpty then defaultTargetFileSize
      else (bytesToHuman stored).getD defaultTargetFileSize

/-! ## The merge CALL -/

/-- A row of a result: `short` has fewer than four columns. -/
inductive MergeRow where
  | short
  | group (schema table : String) (inputs outputs : ℤ)
deriving DecidableEq, Repr

/-- `r[2]`. -/
def MergeRow.inputs : MergeRow → ℤ
  | .short => 0
  | .group _ _ inputs _ => inputs

/-- How a CALL ends; `interrupted` is anything that is no `Exception`. -/
inductive CallEnd where
  | rows (rows : List MergeRow)
  | catalogException
  | instanceFatal
  | exception
  | interrupted
deriving DecidableEq, Repr

/-- Input files of a result. -/
def consumedBy (rows : List MergeRow) : ℤ := (rows.map MergeRow.inputs).sum

/-- What the loop makes of a CALL: `failed` is also a result of the wrong shape, or one without
    inputs. -/
inductive Verdict where
  | merged (rows : List MergeRow)
  | drained
  | vanished
  | fatal
  | failed
  | raised
deriving DecidableEq, Repr

def CallEnd.judge : CallEnd → Verdict
  | .rows found =>
      if .short ∈ found then .failed
      else if found.isEmpty then .drained
      else if consumedBy found ≤ 0 then .failed
      else .merged found
  | .catalogException => .vanished
  | .instanceFatal => .fatal
  | .exception => .failed
  | .interrupted => .raised

theorem judge_merged {e : CallEnd} {rows : List MergeRow} (h : e.judge = .merged rows) :
    e = .rows rows ∧ 0 < consumedBy rows := by
  cases e with
  | rows found =>
      simp only [CallEnd.judge] at h
      split_ifs at h with hshort hempty hzero
      obtain rfl := Verdict.merged.inj h
      exact ⟨rfl, not_le.1 hzero⟩
  | catalogException | instanceFatal | exception | interrupted => cases h

/-! ## The run -/

structure CompactSettings where
  target : String
  table : Option String
  dryRun : Bool
  maxCompactedFiles : ℕ
  maxOutputsPerCall : Option ℕ
deriving DecidableEq, Repr

/-- What catalog and connections do: the errors before the first CALL, what
    `ducklake_set_option` makes of a size, how the n-th CALL ends under a cap on its outputs, whether
    the connection answers after it, and which steps of a new connection fail. -/
structure CompactWorld where
  countFails : Bool
  setupFails : Bool
  readFails : Bool
  setFails : Bool
  readSize : String → Option ℕ
  merge : ℕ → ℤ → CallEnd
  alive : ℕ → Bool
  connectFails : ℕ → Bool
  reconnectSetFails : ℕ → Bool
  restoreFails : Bool

/-- `CALL ducklake_set_option` for `target_file_size`: the value persisted, a count of bytes. -/
def CompactWorld.setTarget (w : CompactWorld) (fails : Bool) (text : String) : Option String :=
  if fails then none else (w.readSize text).map Nat.repr

/-- A CALL of the run, for its table: what was left of the table's grant, the cap, and the inputs that
    the run accounts for. -/
structure MergeCall where
  index : ℕ
  grant : ℤ
  cap : ℤ
  consumed : ℤ
deriving DecidableEq, Repr

structure CompactState where
  calls : List MergeCall
  remaining : ℤ
  result : List MergeRow
  failed : List String
  noopTables : ℕ
  rebuilds : ℕ
  connDead : Bool
  globalSize : Option String
deriving DecidableEq, Repr

/-- Before the first CALL. -/
def CompactState.start (maxCompactedFiles : ℕ) (globalSize : Option String) : CompactState :=
  ⟨[], maxCompactedFiles, [], [], 0, 0, false, globalSize⟩

def CompactState.called (s : CompactState) (call : MergeCall) : CompactState :=
  { s with calls := s.calls ++ [call] }

def CompactState.fail (s : CompactState) (name : String) : CompactState :=
  { s with failed := s.failed ++ [name] }

/-- How the calls for one table end, and a run: `abort_run` and an error that is not caught. -/
inductive LoopEnd where
  | done
  | aborted
  | raised
deriving DecidableEq, Repr

/-- `_MAX_CONNECTION_REBUILDS`. -/
def maxConnectionRebuilds : ℕ := 1

/-- The arm for `_INSTANCE_FATAL_ERRORS`, after the n-th CALL. -/
def CompactWorld.afterFatal (w : CompactWorld) (target : String) (n : ℕ) (s : CompactState) :
    LoopEnd × CompactState :=
  if w.alive n then (.done, s)
  else
    let s := { s with rebuilds := s.rebuilds + 1 }
    if maxConnectionRebuilds < s.rebuilds then (.aborted, { s with connDead := true })
    else if w.connectFails n || !isSettingValue target then (.aborted, { s with connDead := true })
    else
      match w.setTarget (w.reconnectSetFails n) target with
      | none => (.aborted, { s with connDead := true })
      | some stored => (.done, { s with globalSize := some stored })

/-- `grant if max_outputs_per_call is None else min(max_outputs_per_call, grant)`. -/
def callCap (maxOutputsPerCall : Option ℕ) (grant : ℤ) : ℤ :=
  match maxOutputsPerCall with
  | none => grant
  | some outputs => min outputs grant

/-- The calls for one table of the catalog. -/
def mergeTable (cfg : CompactSettings) (w : CompactWorld) (index : ℕ) (name : String) (grant : ℤ)
    (callIdx : ℕ) (s : CompactState) : LoopEnd × CompactState :=
  if 0 < grant ∧ 0 < s.remaining then
    let n := s.calls.length
    let cap := callCap cfg.maxOutputsPerCall grant
    match _h : (w.merge n cap).judge with
    | .merged rows =>
        let consumed := consumedBy rows
        let s' := { s.called ⟨index, grant, cap, consumed⟩ with
          result := s.result ++ rows
          remaining := s.remaining - consumed }
        match cfg.maxOutputsPerCall with
        | none => (.done, s')
        | some _ => mergeTable cfg w index name (grant - consumed) (callIdx + 1) s'
    | .drained =>
        let s' := s.called ⟨index, grant, cap, 0⟩
        (.done, if callIdx = 0 then { s' with noopTables := s.noopTables + 1 } else s')
    | .vanished => (.done, s.called ⟨index, grant, cap, 0⟩)
    | .fatal => w.afterFatal cfg.target n ((s.called ⟨index, grant, cap, 0⟩).fail name)
    | .failed => (.done, (s.called ⟨index, grant, cap, 0⟩).fail name)
    | .raised => (.raised, s.called ⟨index, grant, cap, 0⟩)
  else (.done, s)
termination_by grant.toNat
decreasing_by
  have hpos := (judge_merged _h).2
  omega

/-- The largest part of the budget that one table gets: all of it if there is no other. -/
def tableGrant (cfg : CompactSettings) (tableTotal : ℕ) (remaining : ℤ) : ℤ :=
  if tableTotal = 1 then remaining
  else min remaining (max 1 ((cfg.maxCompactedFiles / 2 : ℕ) : ℤ))

/-- The tables of the catalog, the one at `index` first. The result says at which table a run that
    did not get through them stopped. -/
def mergeTables (cfg : CompactSettings) (w : CompactWorld) (tableTotal : ℕ) :
    ℕ → List (String × String) → CompactState → (LoopEnd × ℕ) × CompactState
  | index, [], s => ((.done, index), s)
  | index, table :: rest, s =>
      if s.remaining ≤ 0 then ((.done, index), s)
      else
        let name := table.1 ++ "." ++ table.2
        match mergeTable cfg w index name (tableGrant cfg tableTotal s.remaining) 0 s with
        | (.done, s') => mergeTables cfg w tableTotal (index + 1) rest s'
        | (.aborted, s') =>
            ((.aborted, index), { s' with failed := s'.failed ++ rest.map fun t => t.1 ++ "." ++ t.2 })
        | (.raised, s') => ((.raised, index), s')

/-- The catalog-wide form, in the body of `_scoped_target_file_size`. -/
def compactCatalog (cfg : CompactSettings) (w : CompactWorld) (tables : List (String × String))
    (globalSize : Option String) : (LoopEnd × ℕ) × CompactState :=
  mergeTables cfg w tables.length 0 tables (.start cfg.maxCompactedFiles globalSize)

/-- The form for one table, which raises whatever its CALLs raise. -/
def compactTable (cfg : CompactSettings) (w : CompactWorld) (s : CompactState) :
    LoopEnd × CompactState :=
  if 0 < s.remaining then
    let n := s.calls.length
    let cap := callCap cfg.maxOutputsPerCall s.remaining
    match _h : (w.merge n cap).judge with
    | .merged rows =>
        let consumed := consumedBy rows
        let s' := { s.called ⟨0, s.remaining, cap, consumed⟩ with
          result := s.result ++ rows
          remaining := s.remaining - consumed }
        match cfg.maxOutputsPerCall with
        | none => (.done, s')
        | some _ => compactTable cfg w s'
    | .drained => (.done, s.called ⟨0, s.remaining, cap, 0⟩)
    | .vanished | .fatal | .failed | .raised => (.raised, s.called ⟨0, s.remaining, cap, 0⟩)
  else (.done, s)
termination_by s.remaining.toNat
decreasing_by
  have hpos := (judge_merged _h).2
  show (s.remaining - consumedBy rows).toNat < s.remaining.toNat
  omega

/-! ## `compact` -/

/-- How a run ends: the number of failed tables, or an error. `live` says that there is a connection
    at the exit. -/
structure CompactEnd where
  returned : Option ℕ
  globalSize : Option String
  live : Bool
deriving DecidableEq, Repr

/-- `_scoped_target_file_size` around a body that gets the state of the option. -/
def scopedTargetFileSize (w : CompactWorld) (value : String) (globalSize : Option String)
    (body : Option String → LoopEnd × CompactState) : CompactEnd :=
  let raised : CompactEnd := ⟨none, globalSize, true⟩
  if !isSettingValue value || w.readFails then raised
  else
    let restore := restoreText globalSize
    if !isSettingValue restore then raised
    else
      match w.setTarget w.setFails value with
      | none => raised
      | some stored =>
          let after := body (some stored)
          let returned := if after.1 = .raised then none else some after.2.failed.length
          if after.2.connDead then ⟨returned, after.2.globalSize, false⟩
          else
            match w.setTarget w.restoreFails restore with
            | none => ⟨none, after.2.globalSize, true⟩
            | some restored => ⟨returned, some restored, true⟩

/-- `compact`, on a catalog with this many candidates in the tier's band and these tables
    enumerated. -/
def compact (cfg : CompactSettings) (w : CompactWorld) (candidates : ℕ)
    (tables : List (String × String)) (globalSize : Option String) : CompactEnd :=
  if cfg.table.any (fun t => !isSettingValue t) || w.countFails then ⟨none, globalSize, true⟩
  else if cfg.dryRun || candidates = 0 then ⟨some 0, globalSize, true⟩
  else if w.setupFails then ⟨none, globalSize, true⟩
  else
    scopedTargetFileSize w cfg.target globalSize fun globalSize =>
      if cfg.table.isSome then compactTable cfg w (.start cfg.maxCompactedFiles globalSize)
      else
        let run := compactCatalog cfg w tables globalSize
        (run.1.1, run.2)

end Millpond.Maintenance
