import Millpond.Main.NoLoss
import Millpond.Main.Observer

set_option autoImplicit false

/-! # The window of a flush

The rows of a flush come from one stretch of what the process consumed, and the offset ranges that
the loop writes with them are the first and the last offset of that stretch. Two processes that
read the same ordered log and flush the same ranges have therefore had the same records before
them: what one of them wrote, the other wrote or counted as skipped. -/

namespace Millpond.Main

open Prog

variable {ε W : Type}

/-! ## Stretches of an ordered list -/

/-- What lies between two elements of a stretch is in it. -/
theorem mem_stretch {α : Type} {f : α → ℕ} {done window after : List α} {a b m : α}
    (hsorted : (done ++ window ++ after).Pairwise (f · < f ·)) (ha : a ∈ window) (hb : b ∈ window)
    (hm : m ∈ done ++ window ++ after) (hfirst : f a ≤ f m) (hlast : f m ≤ f b) : m ∈ window := by
  rw [List.append_assoc] at hm hsorted
  obtain ⟨-, hrest, hdone⟩ := List.pairwise_append.1 hsorted
  obtain ⟨-, -, hafter⟩ := List.pairwise_append.1 hrest
  rcases List.mem_append.1 hm with hearly | hm
  · exact absurd (hdone m hearly a (List.mem_append_left _ ha)) (Nat.not_lt.2 hfirst)
  · rcases List.mem_append.1 hm with hwindow | hlate
    · exact hwindow
    · exact absurd (hafter b hb m hlate) (Nat.not_lt.2 hlast)

/-! ## Ranges -/

/-- The ranges of a window: each begins and ends with a record of its partition, and every record is
    in the range of its partition. -/
structure Spans (window : List Msg) (offsets : Offsets) : Prop where
  first : ∀ entry ∈ offsets, ∃ m ∈ window, m.key = entry.1 ∧ m.offset = entry.2.1
  last : ∀ entry ∈ offsets, ∃ m ∈ window, m.key = entry.1 ∧ m.offset = entry.2.2
  within : ∀ m ∈ window, m.isRecord = true →
    ∃ entry ∈ offsets, entry.1 = m.key ∧ entry.2.1 ≤ m.offset ∧ m.offset ≤ entry.2.2

theorem spans_nil : Spans [] [] :=
  ⟨fun _ h => absurd h List.not_mem_nil, fun _ h => absurd h List.not_mem_nil,
    fun _ h => absurd h List.not_mem_nil⟩

/-- A message that is no record. -/
theorem Spans.pass {window : List Msg} {offsets : Offsets} (h : Spans window offsets) {msg : Msg}
    (hrecord : msg.isRecord = false) : Spans (window ++ [msg]) offsets := by
  refine ⟨fun entry hentry => ?_, fun entry hentry => ?_, fun m hm hm_rec => ?_⟩
  · obtain ⟨m, hm, hfirst⟩ := h.first entry hentry
    exact ⟨m, List.mem_append_left _ hm, hfirst⟩
  · obtain ⟨m, hm, hlast⟩ := h.last entry hentry
    exact ⟨m, List.mem_append_left _ hm, hlast⟩
  · rcases List.mem_append.1 hm with hold | hnew
    · exact h.within m hold hm_rec
    · obtain rfl := List.mem_singleton.1 hnew
      exact absurd (hm_rec.symm.trans hrecord) (by simp)

/-- A record, with its offset noted. -/
theorem Spans.note {window : List Msg} {offsets : Offsets} (h : Spans window offsets) (msg : Msg) :
    Spans (window ++ [msg]) (noteOffset offsets msg.key msg.offset) := by
  have hmsg : msg ∈ window ++ [msg] := List.mem_append_right _ List.mem_cons_self
  refine ⟨fun entry hentry => ?_, fun entry hentry => ?_, fun m hm hrecord => ?_⟩
  · rcases mem_noteOffset hentry with hold | rfl | ⟨range, hrange, rfl⟩
    · obtain ⟨m, hm, hfirst⟩ := h.first entry hold
      exact ⟨m, List.mem_append_left _ hm, hfirst⟩
    · exact ⟨msg, hmsg, rfl, rfl⟩
    · rcases Nat.le_total range.1 msg.offset with hle | hle
      · obtain ⟨m, hm, hkey, hfirst⟩ := h.first _ hrange
        exact ⟨m, List.mem_append_left _ hm, hkey, hfirst.trans (Nat.min_eq_left hle).symm⟩
      · exact ⟨msg, hmsg, rfl, (Nat.min_eq_right hle).symm⟩
  · rcases mem_noteOffset hentry with hold | rfl | ⟨range, hrange, rfl⟩
    · obtain ⟨m, hm, hlast⟩ := h.last entry hold
      exact ⟨m, List.mem_append_left _ hm, hlast⟩
    · exact ⟨msg, hmsg, rfl, rfl⟩
    · rcases Nat.le_total range.2 msg.offset with hle | hle
      · exact ⟨msg, hmsg, rfl, (Nat.max_eq_right hle).symm⟩
      · obtain ⟨m, hm, hkey, hlast⟩ := h.last _ hrange
        exact ⟨m, List.mem_append_left _ hm, hkey, hlast.trans (Nat.max_eq_left hle).symm⟩
  · rcases List.mem_append.1 hm with hold | hnew
    · obtain ⟨entry, hentry, hkey, hfirst, hlast⟩ := h.within m hold hrecord
      obtain ⟨entry', hentry', hkey', hfirst', hlast'⟩ := noteOffset_grows hentry msg.key msg.offset
      exact ⟨entry', hentry', hkey'.trans hkey, hfirst'.trans hfirst, hlast.trans hlast'⟩
    · obtain rfl := List.mem_singleton.1 hnew
      exact noteOffset_self offsets m.key m.offset

/-- The messages of one poll. -/
theorem Spans.take (msgs : List Msg) : ∀ {window : List Msg} {offsets : Offsets},
    Spans window offsets →
      Spans (window ++ msgs.filter (!·.error)) (takeMessages msgs offsets).2 := by
  induction msgs with
  | nil =>
      intro window offsets h
      rwa [List.filter_nil, List.append_nil]
  | cons msg rest ih =>
      intro window offsets h
      unfold takeMessages
      cases herror : msg.error with
      | true =>
          rw [List.filter_cons_of_neg (by simp [herror])]
          exact ih h
      | false =>
          rw [List.filter_cons_of_pos (by simp [herror]), ← List.singleton_append, ← List.append_assoc]
          cases hvalue : msg.value with
          | none => exact ih (h.pass (by simp [Msg.isRecord, hvalue]))
          | some bytes => exact ih (h.note msg)

/-! ## What a flush takes -/

/-- A batch and its offset ranges belong to one stretch of what was consumed: the ranges span it, and
    its records are rows of the batch or were counted. -/
def FromWindow (trace : List Event) (batch : Table) (offsets : Offsets) : Prop :=
  offsets ≠ [] ∧ ∃ done window after, consumed trace = done ++ window ++ after ∧ Spans window offsets ∧
    (∀ m ∈ batch, m ∈ window ∧ m.isRecord = true) ∧
    ∀ m ∈ window, m.isRecord = true → m ∈ batch ∨ SkippedIn trace m

theorem FromWindow.append {trace : List Event} {batch : Table} {offsets : Offsets}
    (h : FromWindow trace batch offsets) (events : List Event) :
    FromWindow (trace ++ events) batch offsets := by
  obtain ⟨hne, done, window, after, htrace, hspans, hrows, hall⟩ := h
  refine ⟨hne, done, window, after ++ consumed events, ?_, hspans, hrows, fun m hm hrecord => ?_⟩
  · rw [consumed_append, htrace, List.append_assoc (done ++ window)]
  · exact (hall m hm hrecord).imp id (·.append_left events)

/-- Every range is of a partition that a message was consumed of. -/
theorem FromWindow.partition {trace : List Event} {batch : Table} {offsets : Offsets}
    (h : FromWindow trace batch offsets) {entry : Key × (ℕ × ℕ)} (hentry : entry ∈ offsets) :
    ∃ m ∈ consumed trace, m.key = entry.1 := by
  obtain ⟨-, done, window, after, htrace, hspans, -⟩ := h
  obtain ⟨m, hm, hkey, -⟩ := hspans.first entry hentry
  exact ⟨m, by rw [htrace]; simp [hm], hkey⟩

/-- The records since the last flush: those in the buffer and those counted, with their ranges. -/
structure Windowed (s : St W) : Prop where
  counter : s.pendingRecords = s.pending.flatten.length
  stretch : ∃ done window, consumed s.trace = done ++ window ∧ Spans window s.offsets ∧
    (∀ m ∈ s.pending.flatten, m ∈ window ∧ m.isRecord = true) ∧
    ∀ m ∈ window, m.isRecord = true → m ∈ s.pending.flatten ∨ SkippedIn s.trace m

theorem windowed_init (rt : Runtime ε W) (w : W) : Windowed (St.init rt w) :=
  ⟨rfl, [], [], rfl, spans_nil, fun _ h => absurd h List.not_mem_nil, fun _ h => absurd h List.not_mem_nil⟩

/-- More events, none of them a poll's messages. -/
theorem Windowed.more {s s' : St W} (h : Windowed s) (hsame : SameBuffer s s') {events : List Event}
    (htrace : s'.trace = s.trace ++ events) (hquiet : consumed events = []) : Windowed s' := by
  obtain ⟨hcounter, done, window, hconsumed, hspans, hrows, hall⟩ := h
  refine ⟨by rw [hsame.pending, hsame.pendingRecords, hcounter], done, window, ?_, hsame.offsets ▸ hspans,
    hsame.pending ▸ hrows, fun m hm hrecord => ?_⟩
  · rw [htrace, consumed_append, hquiet, List.append_nil, hconsumed]
  · rw [hsame.pending, htrace]
    exact (hall m hm hrecord).imp id (·.append_left events)

theorem consumed_flushed (batch : Table) (count n : ℕ) (offsets : List (Key × ℕ)) :
    consumed (.wrote batch count :: List.replicate n (.commit offsets)) = [] := by
  simp [consumed]

theorem Windowed.received {msgs : List Msg} {s s' : St W} (h : Windowed s)
    (hr : Received msgs s s') : Windowed s' := by
  obtain ⟨hcounter, done, window, hconsumed, hspans, hrows, hall⟩ := h
  obtain ⟨hoff, events, table, tables, htr, hskip, hpend, htab, hrec, hsub, hnew⟩ := hr
  have hpending : s'.pending.flatten = s.pending.flatten ++ table := by
    rw [hpend, List.flatten_append, htab]
  have htaken : ∀ m, m ∈ msgs.filter (!·.error) ↔ m ∈ msgs ∧ m.error = false := by simp
  refine ⟨?_, done, window ++ msgs.filter (!·.error), ?_, hoff ▸ hspans.take msgs, fun m hm => ?_,
    fun m hm hrecord => ?_⟩
  · rw [hpending, List.length_append, hrec, hcounter]
  · have hone : consumed (.consumed (msgs.filter (!·.error)) :: events)
        = msgs.filter (!·.error) ++ consumed events := rfl
    rw [htr, consumed_append, hconsumed, hone, hskip.consumed, List.append_nil, List.append_assoc]
  · rw [hpending] at hm
    rcases List.mem_append.1 hm with hold | hin
    · exact ⟨List.mem_append_left _ (hrows m hold).1, (hrows m hold).2⟩
    · obtain ⟨hmem, hrecord⟩ := List.mem_filter.1 (hsub.subset hin)
      have herror : m.error = false := by
        unfold Msg.isRecord at hrecord
        simp only [Bool.and_eq_true, Bool.not_eq_true'] at hrecord
        exact hrecord.1
      exact ⟨List.mem_append_right _ ((htaken m).2 ⟨hmem, herror⟩), hrecord⟩
  -- what the poll brought is in its table, or a stage counted it
  · rw [hpending, htr]
    rcases List.mem_append.1 hm with hold | hin
    · exact (hall m hold hrecord).imp (List.mem_append_left _) (·.append_left _)
    · have hmem := List.mem_filter.2 ⟨((htaken m).1 hin).1, hrecord⟩
      exact (hnew m hmem).imp (List.mem_append_right _) fun hskipped =>
        (hskipped.append_right [_]).append_right _

theorem Windowed.flushed {s s' : St W} (h : Windowed s) (hf : Flushed s s') : Windowed s' := by
  obtain ⟨-, done, window, hconsumed, -⟩ := h
  obtain ⟨hpend, hrec, hoff, batch, count, n, -, htr⟩ := hf
  refine ⟨by rw [hpend, hrec]; rfl, done ++ window, [], ?_, hoff ▸ spans_nil, ?_,
    fun _ hm => absurd hm List.not_mem_nil⟩
  · rw [htr, consumed_append, consumed_flushed, List.append_nil, List.append_nil, hconsumed]
  · rw [hpend]
    exact fun m hm => absurd hm List.not_mem_nil

/-- A flush of the buffer. -/
theorem Windowed.fromWindow {s : St W} (h : Windowed s) {batch : Table} (hpos : 0 < s.pendingRecords)
    (hbatch : batch.Perm s.pending.flatten) : FromWindow s.trace batch s.offsets := by
  obtain ⟨hcounter, done, window, hconsumed, hspans, hrows, hall⟩ := h
  refine ⟨?_, done, window, [], by rw [List.append_nil, hconsumed], hspans,
    fun m hm => hrows m (hbatch.mem_iff.1 hm), fun m hm hrecord => ?_⟩
  · obtain ⟨m, hm⟩ := List.exists_mem_of_length_pos (hcounter ▸ hpos)
    obtain ⟨entry, hentry, -⟩ := hspans.within m (hrows m hm).1 (hrows m hm).2
    exact List.ne_nil_of_mem hentry
  · exact (hall m hm hrecord).imp hbatch.mem_iff.2 id

/-- **Every flush of the loop takes a window.** -/
theorem windowed_invariant : BufferInvariant (W := W) FromWindow Windowed where
  polled := by
    rintro s s' h ⟨hsame, t, htrace⟩
    exact h.more hsame htrace rfl
  received := fun _ _ _ h hr => h.received hr
  wrote := by
    rintro s s' h ⟨hsame, batch, count, n, -, htrace⟩
    exact h.more hsame htrace (consumed_flushed batch count n _)
  flushed := fun _ _ h hf => h.flushed hf
  same := by
    intro s s' h hsame htrace
    have hnone : s'.trace = s.trace ++ [] := by rw [htrace, List.append_nil]
    exact h.more hsame hnone rfl
  flush := fun _ _ h hpos hbatch => h.fromWindow hpos hbatch

/-! ## One log -/

/-- The log of each partition: its own messages, by strictly increasing offset. -/
structure OrderedLog (log : Key → List Msg) : Prop where
  own : ∀ key, ∀ m ∈ log key, m.key = key
  increasing : ∀ key, (log key).Pairwise (·.offset < ·.offset)

/-- Of each partition the trace consumed a stretch of the log, from a start offset on. -/
def ReadsInOrder (log : Key → List Msg) (start : Key → ℕ) (trace : List Event) : Prop :=
  ∀ key, (consumed trace).filter (·.key = key) <+: (log key).filter (start key ≤ ·.offset)

theorem ReadsInOrder.of_append {log : Key → List Msg} {start : Key → ℕ} {trace events : List Event}
    (h : ReadsInOrder log start (trace ++ events)) : ReadsInOrder log start trace := by
  intro key
  refine List.IsPrefix.trans ?_ (h key)
  rw [consumed_append, List.filter_append]
  exact List.prefix_append _ _

/-- What was consumed is in the log. -/
theorem ReadsInOrder.mem {log : Key → List Msg} {start : Key → ℕ} {trace : List Event}
    (h : ReadsInOrder log start trace) {m : Msg} (hm : m ∈ consumed trace) : m ∈ log m.key :=
  List.mem_of_mem_filter ((h m.key).subset (List.mem_filter.2 ⟨hm, by simp⟩))

/-- **Equal ranges, equal records.** Two flushes of the same ranges, of processes that read one log in
    order: a row of the first is a row of the second, or the second process counted it. -/
theorem FromWindow.same {log : Key → List Msg} (hlog : OrderedLog log) {start start' : Key → ℕ}
    {trace trace' : List Event} {batch batch' : Table} {offsets offsets' : Offsets}
    (h : FromWindow trace batch offsets) (h' : FromWindow trace' batch' offsets')
    (hperm : offsets.Perm offsets') (horder : ReadsInOrder log start trace)
    (horder' : ReadsInOrder log start' trace') {m : Msg} (hm : m ∈ batch) :
    m ∈ batch' ∨ SkippedIn trace' m := by
  obtain ⟨-, done, window, after, hconsumed, hspans, hrows, -⟩ := h
  obtain ⟨-, done', window', after', hconsumed', hspans', -, hall'⟩ := h'
  obtain ⟨hwindow, hrecord⟩ := hrows m hm
  obtain ⟨entry, hentry, hkey, hfirst, hlast⟩ := hspans.within m hwindow hrecord
  obtain ⟨a, ha, hakey, hafirst⟩ := hspans'.first entry (hperm.mem_iff.1 hentry)
  obtain ⟨b, hb, hbkey, hblast⟩ := hspans'.last entry (hperm.mem_iff.1 hentry)
  refine hall' m ?_ hrecord
  -- the records of the partition that the second process may come to
  have hmlog : m ∈ log m.key := horder.mem (by rw [hconsumed]; simp [hwindow])
  obtain ⟨rest, hrest⟩ := horder' m.key
  rw [hconsumed', List.filter_append, List.filter_append, List.append_assoc _ _ rest] at hrest
  have hsorted := (hlog.increasing m.key).filter fun x => start' m.key ≤ x.offset
  rw [← hrest] at hsorted
  have hkeyed : ∀ x ∈ window', x.key = m.key → x ∈ window'.filter (·.key = m.key) :=
    fun x hx hxkey => List.mem_filter.2 ⟨hx, by simp [hxkey]⟩
  have hain := hkeyed a ha (hakey.trans hkey)
  have hstart : start' m.key ≤ a.offset := by
    have hmem : a ∈ (log m.key).filter (start' m.key ≤ ·.offset) := by
      rw [← hrest]
      exact List.mem_append_left _ (List.mem_append_right _ hain)
    simpa using (List.mem_filter.1 hmem).2
  have hmin : m ∈ (log m.key).filter (start' m.key ≤ ·.offset) :=
    List.mem_filter.2 ⟨hmlog, by simpa using hstart.trans (hafirst ▸ hfirst)⟩
  rw [← hrest] at hmin
  exact List.mem_of_mem_filter (mem_stretch hsorted hain (hkeyed b hb (hbkey.trans hkey)) hmin
    (hafirst ▸ hfirst) (hblast ▸ hlast))

end Millpond.Main
