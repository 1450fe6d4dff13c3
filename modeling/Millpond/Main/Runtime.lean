import Millpond.Lib.Prog
import Mathlib.Data.Rat.Floor
import Mathlib.Data.List.Sort

set_option autoImplicit false

/-! # What the consume loop runs on

The data of `main()` and everything outside the process, behind a `Runtime`: the clock, Kafka, the
sink, Arrow, and which calls raise, all read from a world `W` that every call may change. A run
also keeps a trace of what an observer would count: records consumed and skipped, batches a
`sink.write` returned for, offsets handed to `kafka.commit`, polls recorded. -/

namespace Millpond.Main

open Prog

/-! ## Messages, tables, offsets -/

/-- A Kafka message. A message with `error` set is an event, not a record. -/
structure Msg where
  topic : String
  partition : ℕ
  offset : ℕ
  error : Bool
  value : Option (List UInt8)
deriving DecidableEq

/-- `(topic, partition)`. -/
abbrev Key := String × ℕ

def Msg.key (m : Msg) : Key := (m.topic, m.partition)

/-- A record the loop hands to the converter: no error and a value. -/
def Msg.isRecord (m : Msg) : Bool := !m.error && m.value.isSome

/-- An Arrow table, as the messages its rows came from, in row order. -/
abbrev Table := List Msg

/-- The dict `offsets`: `(topic, partition)` to the (first, last) offset in the pending buffer. -/
abbrev Offsets := List (Key × (ℕ × ℕ))

/-- `offsets[key] = (min(first, offset), max(last, offset))`. -/
def noteOffset : Offsets → Key → ℕ → Offsets
  | [], key, offset => [(key, (offset, offset))]
  | (k, (first, last)) :: rest, key, offset =>
      if k = key then (k, (min first offset, max last offset)) :: rest
      else (k, (first, last)) :: noteOffset rest key offset

/-- The `for msg in msgs` loop: the values to convert and the updated offsets. -/
def takeMessages : List Msg → Offsets → List Msg × Offsets
  | [], offsets => ([], offsets)
  | msg :: rest, offsets =>
      if msg.error then takeMessages rest offsets
      else if msg.value.isNone then takeMessages rest offsets
      else
        let (values, offsets') := takeMessages rest (noteOffset offsets msg.key msg.offset)
        (msg :: values, offsets')

@[simp] theorem takeMessages_values (msgs : List Msg) :
    ∀ offsets, (takeMessages msgs offsets).1 = msgs.filter Msg.isRecord := by
  induction msgs with
  | nil => exact fun _ => rfl
  | cons msg rest ih =>
      intro offsets
      unfold takeMessages
      by_cases herr : msg.error
      · simp [herr, ih, Msg.isRecord]
      · cases hval : msg.value with
        | none => simp [herr, hval, ih, Msg.isRecord]
        | some bytes => simp [herr, hval, ih, Msg.isRecord]

theorem mem_noteOffset {offsets : Offsets} {key : Key} {offset : ℕ} {entry : Key × (ℕ × ℕ)}
    (h : entry ∈ noteOffset offsets key offset) :
    entry ∈ offsets ∨ entry = (key, (offset, offset)) ∨
      ∃ range, (key, range) ∈ offsets ∧ entry = (key, (min range.1 offset, max range.2 offset)) := by
  induction offsets with
  | nil => exact Or.inr (Or.inl (List.mem_singleton.1 h))
  | cons head rest ih =>
      obtain ⟨k, first, last⟩ := head
      unfold noteOffset at h
      split at h
      · next hkey =>
          subst hkey
          rcases List.mem_cons.1 h with rfl | hrest
          · exact Or.inr (Or.inr ⟨(first, last), List.mem_cons_self, rfl⟩)
          · exact Or.inl (List.mem_cons_of_mem _ hrest)
      · rcases List.mem_cons.1 h with rfl | hrest
        · exact Or.inl List.mem_cons_self
        · rcases ih hrest with hold | hnew | ⟨range, hrange, heq⟩
          · exact Or.inl (List.mem_cons_of_mem _ hold)
          · exact Or.inr (Or.inl hnew)
          · exact Or.inr (Or.inr ⟨range, List.mem_cons_of_mem _ hrange, heq⟩)

/-- The offset is in the range that `noteOffset` leaves. -/
theorem noteOffset_self (offsets : Offsets) (key : Key) (offset : ℕ) :
    ∃ entry ∈ noteOffset offsets key offset,
      entry.1 = key ∧ entry.2.1 ≤ offset ∧ offset ≤ entry.2.2 := by
  induction offsets with
  | nil => exact ⟨_, List.mem_cons_self, rfl, Nat.le_refl _, Nat.le_refl _⟩
  | cons head rest ih =>
      obtain ⟨k, first, last⟩ := head
      unfold noteOffset
      split
      · next hkey => exact ⟨_, List.mem_cons_self, hkey, Nat.min_le_right _ _, Nat.le_max_right _ _⟩
      · obtain ⟨entry, hentry, h⟩ := ih
        exact ⟨entry, List.mem_cons_of_mem _ hentry, h⟩

/-- And every range only grows. -/
theorem noteOffset_grows {offsets : Offsets} {entry : Key × (ℕ × ℕ)} (h : entry ∈ offsets) (key : Key)
    (offset : ℕ) : ∃ entry' ∈ noteOffset offsets key offset,
      entry'.1 = entry.1 ∧ entry'.2.1 ≤ entry.2.1 ∧ entry.2.2 ≤ entry'.2.2 := by
  induction offsets with
  | nil => exact absurd h List.not_mem_nil
  | cons head rest ih =>
      obtain ⟨k, first, last⟩ := head
      unfold noteOffset
      split
      · rcases List.mem_cons.1 h with rfl | hrest
        · exact ⟨_, List.mem_cons_self, rfl, Nat.min_le_left _ _, Nat.le_max_left _ _⟩
        · exact ⟨entry, List.mem_cons_of_mem _ hrest, rfl, Nat.le_refl _, Nat.le_refl _⟩
      · rcases List.mem_cons.1 h with rfl | hrest
        · exact ⟨_, List.mem_cons_self, rfl, Nat.le_refl _, Nat.le_refl _⟩
        · obtain ⟨entry', hentry', h'⟩ := ih hrest
          exact ⟨entry', List.mem_cons_of_mem _ hentry', h'⟩

/-- `TopicPartition(topic, partition, last + 1)` for every key. -/
def tpOffsets (offsets : Offsets) : List (Key × ℕ) :=
  offsets.map (fun entry => (entry.1, entry.2.2 + 1))

/-- Why the keep-filter drops a row. -/
inductive KeepReason where
  | fieldMissing
  | valueInvalid
  | excluded
deriving DecidableEq, Repr

/-- The labels of `records_skipped_total`. -/
inductive SkipReason where
  | jsonParse
  | keepFilter (reason : KeepReason)
  | filterDropped
deriving DecidableEq, Repr

/-- Why a flush happens (the `trigger` label). -/
inductive Trigger where
  | size
  | time
  | final
deriving DecidableEq, Repr

/-- The keyword arguments of a hoglake `write`. -/
structure WriteArgs where
  kafkaOffsets : List (Key × (ℕ × ℕ))
  trigger : Trigger
deriving DecidableEq

/-- Lexicographic order of the `(topic, partition, first, last)` tuples. -/
def offsetLe (a b : Key × (ℕ × ℕ)) : Bool :=
  if a.1.1 ≠ b.1.1 then decide (a.1.1 ≤ b.1.1)
  else if a.1.2 ≠ b.1.2 then decide (a.1.2 ≤ b.1.2)
  else if a.2.1 ≠ b.2.1 then decide (a.2.1 ≤ b.2.1)
  else decide (a.2.2 ≤ b.2.2)

/-! ## The runtime -/

/-- The calls of the loop that may raise. -/
inductive Call where
  | consume
  | convert
  | coerce
  | filter
  | dropFilter
  | concat
  | sort
  | write
  | commit
  | flushMetrics
  | lagSample
deriving DecidableEq, Repr

/-- How a call ends: it returns, it raises, or the process dies inside it. -/
inductive Outcome (ε α : Type) where
  | ok (a : α)
  | raised (e : ε)
  | killed

/-- An exception in flight. `origin` is the call its traceback names, `permanent` the attribute
    `_PERMANENT_WRITE_ATTR`. -/
structure Failure (ε : Type) where
  origin : Call
  error : ε
  permanent : Bool

/-- What unwinds the loop. `killed` is no exception: no handler and no `finally` runs. -/
inductive Exn (ε : Type) where
  | raised (f : Failure ε)
  | killed

/-- Everything the loop talks to. -/
structure Runtime (ε W : Type) where
  /-- `time.monotonic()`. -/
  now : W → ℚ
  sleep : ℚ → W → W
  /-- `random.uniform(0, upper)`. -/
  uniform : ℚ → W → ℚ × W
  /-- The flag the signal handler sets. -/
  shutdown : W → Bool
  consume : ℕ → ℚ → W → Outcome ε (List Msg) × W
  /-- Whether a call whose result the model computes itself returns. -/
  attempt : Call → W → Outcome ε Unit × W
  /-- The value decodes to a JSON object. -/
  decodes : Msg → Bool
  /-- And the object has a key. -/
  hasKeys : Msg → Bool
  /-- The keep-filter's verdict on a row of a batch, under the include set `current()` returns. -/
  keepVerdict : W → Table → Msg → Option KeepReason
  /-- Whether the drop-filter removes a row of a batch. -/
  dropVerdict : Table → Msg → Bool
  nbytes : Table → ℕ
  /-- `_apply_sort`: the batch in another row order. -/
  sorted : Table → Table
  sorted_perm : ∀ table, (sorted table).Perm table
  write : Table → Option WriteArgs → W → Outcome ε ℕ × W
  resetCaches : W → W
  isRetryable : Option (W → ε → Bool)
  /-- Whether `setattr` works on the exception (a type with `__slots__` refuses it). -/
  canMark : ε → Bool
  writeRetryBudget : Option (ℕ × ℚ)
  writeRetryBudget_pos : ∀ budget ∈ writeRetryBudget, 0 < budget.1
  /-- The server's hint for the last refusal; reading it consumes it. -/
  retryAfterHint : Option (W → Option ℚ × W)
  writeFlushDeadline : Option (ℚ × ℚ)
  commit : List (Key × ℕ) → W → Outcome ε Unit × W

/-- The part of `Config` the loop reads. -/
structure LoopConfig where
  flushIntervalS : ℚ
  flushSize : ℤ
  consumeBatchSize : ℤ
  hoglake : Bool

/-- What an observer of the process counts. -/
inductive Event where
  /-- `health.record_poll()` at this time. -/
  | polled (at_ : ℚ)
  /-- `records_consumed_total`: the non-error messages of one consume call. -/
  | consumed (msgs : List Msg)
  /-- `records_skipped_total` under one reason. -/
  | skipped (msgs : List Msg) (reason : SkipReason)
  /-- A `sink.write` of this batch returned. -/
  | wrote (batch : Table) (count : ℕ)
  /-- `kafka.commit` was called with these offsets. -/
  | commit (offsets : List (Key × ℕ))
deriving DecidableEq

/-- The local variables of `main()`, the liveness clock, the world and the trace. -/
structure St (W : Type) where
  pending : List Table
  pendingBytes : ℕ
  pendingRecords : ℕ
  offsets : Offsets
  lastFlush : ℚ
  lastLagSample : ℚ
  lastPoll : ℚ
  world : W
  trace : List Event

abbrev M (ε W : Type) := EStateM (Exn ε) (St W)

variable {ε W : Type}

/-- Record an event. -/
def note (e : Event) : M ε W PUnit := modify fun s => { s with trace := s.trace ++ [e] }

/-- Change the world. -/
def onWorld (f : W → W) : M ε W PUnit := modify fun s => { s with world := f s.world }

/-- A call out of the process. -/
def external {α : Type} (origin : Call) (f : W → Outcome ε α × W) : M ε W α := fun s =>
  match f s.world with
  | (.ok a, w) => .ok a { s with world := w }
  | (.raised e, w) => .error (.raised ⟨origin, e, false⟩) { s with world := w }
  | (.killed, w) => .error .killed { s with world := w }

/-- `external` ends in one of three ways, with only the world changed. -/
theorem wp_external {α : Type} {origin : Call} {f : W → Outcome ε α × W}
    {Q : α → St W → Prop} {E : Exn ε → St W → Prop} {s : St W}
    (hok : ∀ a w, f s.world = (.ok a, w) → Q a { s with world := w })
    (hraised : ∀ e w, f s.world = (.raised e, w) →
      E (.raised ⟨origin, e, false⟩) { s with world := w })
    (hkilled : ∀ w, f s.world = (.killed, w) → E .killed { s with world := w }) :
    wp (external origin f) Q E s := by
  unfold wp external
  rcases hf : f s.world with ⟨o, w⟩
  cases o with
  | ok a => exact hok a w hf
  | raised e => exact hraised e w hf
  | killed => exact hkilled w hf

/-- A call that is known to return. -/
theorem wp_external_ok {α : Type} {origin : Call} {f : W → Outcome ε α × W}
    {Q : α → St W → Prop} {E : Exn ε → St W → Prop} {s : St W} {a : α} {w : W}
    (hf : f s.world = (.ok a, w)) (h : Q a { s with world := w }) :
    wp (external origin f) Q E s := by
  unfold wp external
  rw [hf]
  exact h

/-! ## A scripted environment -/

/-- An environment that plays back a list of polls and raises at the (poll number, call) pairs of
    `raising`. Its clock stands still and every message decodes and is kept. -/
structure Script where
  upcoming : List (List Msg)
  raising : List (ℕ × Call)
  polled : ℕ

/-- Raise if the script says so for this call after this many polls. -/
def Script.check {α : Type} (script : Script) (call : Call) (a : α) : Outcome Unit α × Script :=
  (if (script.polled, call) ∈ script.raising then .raised () else .ok a, script)

def Script.runtime : Runtime Unit Script where
  now := fun _ => 0
  sleep := fun _ script => script
  uniform := fun _ script => (0, script)
  shutdown := fun script => script.upcoming.isEmpty
  consume := fun _ _ script =>
    match script.upcoming with
    | [] => (.ok [], script)
    | msgs :: rest => (.ok msgs, { script with upcoming := rest, polled := script.polled + 1 })
  attempt := fun call script => script.check call ()
  decodes := fun _ => true
  hasKeys := fun _ => true
  keepVerdict := fun _ _ _ => none
  dropVerdict := fun _ _ => false
  nbytes := List.length
  sorted := id
  sorted_perm := fun table => List.Perm.refl table
  write := fun batch _ script => script.check .write batch.length
  resetCaches := id
  isRetryable := none
  canMark := fun _ => true
  writeRetryBudget := none
  writeRetryBudget_pos := by simp
  retryAfterHint := none
  writeFlushDeadline := none
  commit := fun _ script => script.check .commit ()

/-- The record at an offset of partition 0 of one topic. -/
def Script.record (offset : ℕ) : Msg where
  topic := "events"
  partition := 0
  offset := offset
  error := false
  value := some [123, 34, 97, 34, 58, 49, 125]

/-! ## Program steps on the state -/

@[simp] theorem wp_note {Q : PUnit → St W → Prop} {E : Exn ε → St W → Prop} (e : Event) :
    wp (note e : M ε W PUnit) Q E = fun s => Q ⟨⟩ { s with trace := s.trace ++ [e] } := rfl

@[simp] theorem wp_onWorld {Q : PUnit → St W → Prop} {E : Exn ε → St W → Prop} (f : W → W) :
    wp (onWorld f : M ε W PUnit) Q E = fun s => Q ⟨⟩ { s with world := f s.world } := rfl

end Millpond.Main
