import Millpond.Main.Steps

set_option autoImplicit false

/-! # No data loss window

Offsets are committed only after the rows they cover are durable. The dict `offsets` takes a
message in before its row reaches the pending buffer, so between the two an exception leaves
offsets that the buffer does not back; the final flush then commits them if older rows are pending.
Everywhere else the buffer and the counted skips account for every record consumed. -/

namespace Millpond.Main

open Prog

variable {ε W : Type} {rt : Runtime ε W} {cfg : LoopConfig}

/-! ## The property -/

/-- The messages the events say were consumed. -/
def consumed (trace : List Event) : List Msg :=
  trace.flatMap fun
    | .consumed msgs => msgs
    | _ => []

/-- `m` was in a batch whose write returned, or a counted skip dropped it. -/
def Covered (trace : List Event) (m : Msg) : Prop :=
  (∃ batch count, Event.wrote batch count ∈ trace ∧ m ∈ batch) ∨ SkippedIn trace m

/-- **No loss**: when `next` is handed to `kafka.commit` for a partition, every record of that
    partition consumed before with an offset below `next` is covered already. -/
def NoLoss (trace : List Event) : Prop :=
  ∀ before offsets after, trace = before ++ .commit offsets :: after →
    ∀ key next, (key, next) ∈ offsets →
      ∀ m ∈ consumed before, m.isRecord = true → m.key = key → m.offset < next →
        Covered before m

/-- The loop ended in a conversion, coercion or filter call while older rows were pending. -/
def LosesBatch (rt : Runtime ε W) (cfg : LoopConfig) (w : W) (n : ℕ) : Prop :=
  ∃ failure s, loopFailure rt cfg w n = some (failure, s) ∧ failure.origin ∈ stages ∧
    0 < s.pendingRecords

/-- A run that loses no batch ends in a stage only with nothing pending. -/
theorem pendingRecords_eq_zero {w : W} {n : ℕ} {failure : Failure ε} {s : St W}
    (h : ¬ LosesBatch rt cfg w n) (hfailure : loopFailure rt cfg w n = some (failure, s))
    (hstage : (Exn.raised failure).from stages) : s.pendingRecords = 0 := by
  by_contra hpos
  exact h ⟨failure, s, hfailure, Exn.from_raised.1 hstage, Nat.pos_of_ne_zero hpos⟩

/-! ## Traces -/

theorem consumed_append (trace events : List Event) :
    consumed (trace ++ events) = consumed trace ++ consumed events := by
  simp [consumed]

theorem Covered.append {trace : List Event} {m : Msg} (h : Covered trace m)
    (events : List Event) : Covered (trace ++ events) m := by
  rcases h with ⟨batch, count, hw, hm⟩ | hskip
  · exact Or.inl ⟨batch, count, List.mem_append.2 (Or.inl hw), hm⟩
  · exact Or.inr (hskip.append_left events)

/-- Every record consumed so far is covered. -/
def AllCovered (trace : List Event) : Prop :=
  ∀ m ∈ consumed trace, m.isRecord = true → Covered trace m

/-- One more event keeps `NoLoss` if a commit comes only when everything is covered. -/
theorem NoLoss.snoc {trace : List Event} (h : NoLoss trace) (e : Event)
    (hcommit : ∀ offsets, e = .commit offsets → AllCovered trace) : NoLoss (trace ++ [e]) := by
  intro before offsets after heq key next hnext m hm hrec hkey hlt
  rcases List.eq_nil_or_concat after with rfl | ⟨after', last, rfl⟩
  · obtain ⟨rfl, he⟩ := List.append_inj' heq rfl
    exact hcommit offsets (List.singleton_inj.1 he) m hm hrec
  · rw [List.concat_eq_append, ← List.cons_append, ← List.append_assoc] at heq
    obtain ⟨rfl, -⟩ := List.append_inj' heq rfl
    exact h before offsets after' rfl key next hnext m hm hrec hkey hlt

theorem NoLoss.append {trace events : List Event} (h : NoLoss trace)
    (hquiet : ∀ offsets, Event.commit offsets ∉ events) : NoLoss (trace ++ events) := by
  induction events generalizing trace with
  | nil => simpa using h
  | cons e rest ih =>
      rw [← List.singleton_append, ← List.append_assoc]
      refine ih (h.snoc e ?_) (fun offsets ho => hquiet offsets (List.mem_cons_of_mem _ ho))
      rintro offsets rfl
      exact absurd List.mem_cons_self (hquiet offsets)

theorem AllCovered.commit {trace : List Event} (h : AllCovered trace)
    (offsets : List (Key × ℕ)) : AllCovered (trace ++ [.commit offsets]) := by
  intro m hm hrec
  rw [consumed_append] at hm
  have hm' : m ∈ consumed trace := by simpa [consumed] using hm
  exact (h m hm' hrec).append _

/-- Any number of commits is safe once everything consumed is covered. -/
theorem NoLoss.commits {trace : List Event} (h : NoLoss trace) (hall : AllCovered trace)
    (offsets : List (Key × ℕ)) (n : ℕ) :
    NoLoss (trace ++ List.replicate n (.commit offsets)) ∧
      AllCovered (trace ++ List.replicate n (.commit offsets)) := by
  induction n with
  | zero => simpa using ⟨h, hall⟩
  | succ n ih =>
      rw [List.replicate_succ', ← List.append_assoc]
      exact ⟨ih.1.snoc _ (fun _ _ => ih.2), ih.2.commit offsets⟩

/-! ## The invariant -/

/-- Every record consumed is covered, in the buffer, or among the messages `inHand`. -/
structure Accounted (inHand : List Msg) (s : St W) : Prop where
  safe : NoLoss s.trace
  counter : s.pendingRecords = s.pending.flatten.length
  records : ∀ m ∈ consumed s.trace, m.isRecord = true →
    Covered s.trace m ∨ m ∈ s.pending.flatten ∨ m ∈ inHand

theorem OnlySkips.no_commit {events : List Event} (h : OnlySkips events)
    (offsets : List (Key × ℕ)) : Event.commit offsets ∉ events := by
  intro he
  obtain ⟨msgs, reason, heq⟩ := h _ he
  cases heq

theorem OnlySkips.consumed {events : List Event} (h : OnlySkips events) :
    consumed events = [] := by
  refine List.flatMap_eq_nil_iff.2 (fun e he => ?_)
  obtain ⟨msgs, reason, rfl⟩ := h e he
  rfl

theorem Accounted.polled {s s' : St W} (h : Accounted [] s) (hp : Polled s s') :
    Accounted [] s' := by
  obtain ⟨hsame, t, htr⟩ := hp
  refine ⟨?_, by rw [hsame.pending, hsame.pendingRecords, h.counter], fun m hm hrec => ?_⟩
  · rw [htr]
    exact h.safe.append (by simp)
  · rw [htr, consumed_append] at hm
    have hm' : m ∈ Main.consumed s.trace := by simpa [Main.consumed] using hm
    rw [htr, hsame.pending]
    exact (h.records m hm' hrec).imp (·.append _) id

/-- The trace of a batch that came in: its own records are the only new ones. -/
theorem mem_consumed_batch {trace events : List Event} {msgs : List Msg} (hskip : OnlySkips events)
    {m : Msg} (hm : m ∈ consumed (trace ++ .consumed (msgs.filter (!·.error)) :: events)) :
    m ∈ consumed trace ∨ m ∈ msgs ∧ m.error = false := by
  rw [consumed_append] at hm
  have hcons : consumed (.consumed (msgs.filter (!·.error)) :: events)
      = msgs.filter (!·.error) ++ consumed events := rfl
  rw [hcons, hskip.consumed, List.append_nil] at hm
  simpa using hm

theorem Accounted.received {msgs : List Msg} {s s' : St W} (h : Accounted [] s)
    (hr : Received msgs s s') : Accounted [] s' := by
  obtain ⟨-, events, table, tables, htr, hskip, hpend, htab, hrec, -, hrows⟩ := hr
  refine ⟨?_, ?_, fun m hm hm_rec => ?_⟩
  · rw [htr]
    refine h.safe.append (fun offsets ho => ?_)
    rcases List.mem_cons.1 ho with heq | ho
    · cases heq
    · exact hskip.no_commit offsets ho
  · rw [hrec, hpend, h.counter, List.flatten_append, List.length_append, htab]
  · rw [htr] at hm
    rw [hpend, List.flatten_append, htab, List.mem_append]
    rcases mem_consumed_batch hskip hm with hold | ⟨hnew, herr⟩
    · rcases h.records m hold hm_rec with hc | hp | hn
      · rw [htr]
        exact Or.inl (hc.append _)
      · exact Or.inr (Or.inl (Or.inl hp))
      · exact absurd hn List.not_mem_nil
    · rcases hrows m (List.mem_filter.2 ⟨hnew, hm_rec⟩) with hrow | hskipped
      · exact Or.inr (Or.inl (Or.inr hrow))
      · rw [htr]
        exact Or.inl (Or.inr ((hskipped.append_right [_]).append_right _))

theorem Accounted.receiveFailed {msgs : List Msg} {s s' : St W} {e : Exn ε}
    (h : Accounted [] s) (hr : ReceiveFailed msgs s e s') :
    Accounted (msgs.filter Msg.isRecord) s' := by
  obtain ⟨hpend, hrec, ⟨events, htr, hskip⟩, -⟩ := hr
  refine ⟨?_, by rw [hpend, hrec, h.counter], fun m hm hm_rec => ?_⟩
  · rw [htr]
    refine h.safe.append (fun offsets ho => ?_)
    rcases List.mem_cons.1 ho with heq | ho
    · cases heq
    · exact hskip.no_commit offsets ho
  · rw [htr] at hm
    rcases mem_consumed_batch hskip hm with hold | ⟨hnew, herr⟩
    · rw [htr, hpend]
      exact (h.records m hold hm_rec).imp (·.append _) (fun hp => hp.imp id (absurd · List.not_mem_nil))
    · exact Or.inr (Or.inr (List.mem_filter.2 ⟨hnew, hm_rec⟩))

/-- Once the buffer is written, every record consumed is covered, so the commits are safe. -/
theorem Accounted.written {s : St W} (h : Accounted [] s) {batch : Table} {count n : ℕ}
    {offsets : List (Key × ℕ)} (hbatch : batch.Perm s.pending.flatten) {trace : List Event}
    (htr : trace = s.trace ++ .wrote batch count :: List.replicate n (.commit offsets)) :
    NoLoss trace ∧ AllCovered trace := by
  -- what was in the buffer is in the batch now
  have hall : AllCovered (s.trace ++ [.wrote batch count]) := by
    intro m hm hrec
    rw [consumed_append] at hm
    have hm' : m ∈ consumed s.trace := by simpa [consumed] using hm
    rcases h.records m hm' hrec with hc | hp | hn
    · exact hc.append _
    · exact Or.inl ⟨batch, count, by simp, hbatch.mem_iff.2 hp⟩
    · exact absurd hn List.not_mem_nil
  have hsafe : NoLoss (s.trace ++ [.wrote batch count]) := h.safe.append (by simp)
  rw [htr, ← List.singleton_append, ← List.append_assoc]
  exact hsafe.commits hall offsets n

theorem Accounted.wrote {s s' : St W} (h : Accounted [] s) (hw : Wrote s s') :
    Accounted [] s' := by
  obtain ⟨hsame, batch, count, n, hbatch, htr⟩ := hw
  obtain ⟨hsafe, hall⟩ := h.written hbatch htr
  exact ⟨hsafe, by rw [hsame.pending, hsame.pendingRecords, h.counter],
    fun m hm hrec => Or.inl (hall m hm hrec)⟩

theorem Accounted.flushed {s s' : St W} (h : Accounted [] s) (hf : Flushed s s') :
    Accounted [] s' := by
  obtain ⟨hpend, hrec, -, batch, count, n, hbatch, htr⟩ := hf
  obtain ⟨hsafe, hall⟩ := h.written hbatch htr
  exact ⟨hsafe, by rw [hpend, hrec]; rfl, fun m hm hm_rec => Or.inl (hall m hm hm_rec)⟩

theorem Accounted.same {s s' : St W} {inHand : List Msg} (h : Accounted inHand s)
    (hsame : SameBuffer s s') (htr : s'.trace = s.trace) : Accounted inHand s' :=
  ⟨htr ▸ h.safe, by rw [hsame.pending, hsame.pendingRecords, h.counter],
    by rw [htr, hsame.pending]; exact h.records⟩

/-! ## Runs -/

/-- What the loop leaves behind: nothing is in hand unless a stage raised. -/
def LoopExit (e : Exn ε) (s : St W) : Prop :=
  ∃ inHand, Accounted inHand s ∧ (inHand = [] ∨ e.from stages)

theorem iteration_accounted (s : St W) (h : Accounted [] s) :
    wp (iteration rt cfg) (fun _ => Accounted []) LoopExit s := by
  refine wp_iteration (J := Accounted []) (fun s' hp => h.polled hp) ?_
    (fun msgs s₁ s₂ h₁ hr => h₁.received hr) ?_ (fun s₁ s₂ h₁ hf => h₁.flushed hf) ?_
  · exact fun e w _ => ⟨[], h.same ⟨rfl, rfl, rfl⟩ rfl, Or.inl rfl⟩
  · exact fun msgs s₁ e s₂ h₁ hr => ⟨_, h₁.receiveFailed hr, Or.inr hr.origin⟩
  · intro s₁ e s₂ h₁ hf
    cases hf with
    | unwritten same trace _ => exact ⟨[], h₁.same same trace, Or.inl rfl⟩
    | written hwrote _ => exact ⟨[], h₁.wrote hwrote, Or.inl rfl⟩

theorem loop_accounted (n : ℕ) (w : W) :
    wp (loop rt cfg n) (fun _ => Accounted []) LoopExit (St.init rt w) :=
  wp_whileLoop (fun s hI _ => iteration_accounted s hI) n _
    ⟨fun before offsets after heq => by simp [St.init] at heq, rfl,
      fun m hm => by simp [St.init, consumed] at hm⟩

/-- The final flush is safe if nothing is in hand or nothing is pending. -/
theorem shutDown_noLoss {inHand : List Msg} {s : St W} (h : Accounted inHand s)
    (hin : inHand = [] ∨ s.pendingRecords = 0) (loopError : Option (Failure ε)) :
    NoLoss (final (shutDown rt cfg loopError) s).trace := by
  refine final_of_wp (P := fun s' => NoLoss s'.trace)
    (wp_mono (shutDown_spec loopError s) (fun _ s' hs => ?_) (fun _ s' hs => ?_))
  all_goals
    cases hs with
    | idle _ trace => rw [trace]; exact h.safe
    | flushed hpos wrote =>
        obtain rfl : inHand = [] := hin.resolve_right (Nat.pos_iff_ne_zero.1 hpos)
        exact (h.wrote wrote).safe

/-- **No data loss window, as long as no stage raises with rows pending.** In every run in which
    conversion, coercion and filters raise at most while the buffer is empty, no offset is ever
    committed over a record that is neither written nor counted as skipped. -/
theorem noLoss_of_not_losesBatch (rt : Runtime ε W) (cfg : LoopConfig) (w : W) (n : ℕ)
    (h : ¬ LosesBatch rt cfg w n) : NoLoss (runMain rt cfg w n).trace := by
  refine runMain_rule (P := fun s => NoLoss s.trace) (loop_accounted n w) (fun s hacc => hacc.safe)
    (fun s hacc => shutDown_noLoss hacc (Or.inl rfl) none) ?_ ?_
  · rintro s ⟨inHand, hacc, -⟩
    exact hacc.safe
  · rintro failure s hfailure ⟨inHand, hacc, hin⟩
    exact shutDown_noLoss hacc (hin.imp id fun hstage => pendingRecords_eq_zero h hfailure hstage) (some failure)

/-- The buffer flushes at 100 bytes; two polls deliver offsets 0 and 1. -/
def lossConfig : LoopConfig where
  flushIntervalS := 60
  flushSize := 100
  consumeBatchSize := 10
  hoglake := false

/-- Every poll is flushed and committed; the conversion of the second one raises, with nothing pending. -/
theorem noLoss_raising_after_commit :
    .commit [(("events", 0), 1)] ∈ (runMain Script.runtime { lossConfig with flushSize := 1 }
        ⟨[[Script.record 0], [Script.record 1]], [(2, .convert)], 0⟩ 2).trace ∧
      NoLoss (runMain Script.runtime { lossConfig with flushSize := 1 }
        ⟨[[Script.record 0], [Script.record 1]], [(2, .convert)], 0⟩ 2).trace := by
  refine ⟨by decide +kernel, noLoss_of_not_losesBatch _ _ _ _ ?_⟩
  rintro ⟨failure, s, hfail, -, hpos⟩
  have hempty : (loopFailure Script.runtime { lossConfig with flushSize := 1 }
      ⟨[[Script.record 0], [Script.record 1]], [(2, .convert)], 0⟩ 2).all
        (fun r => r.2.pendingRecords = 0) = true := by decide +kernel
  rw [hfail] at hempty
  have hzero : s.pendingRecords = 0 := by simpa using hempty
  omega

/-- The conversion of the second poll raises with the first one's row pending: the final flush
    writes offset 0 and commits offset 2. -/
theorem loss_raising_second :
    ¬ NoLoss (runMain Script.runtime lossConfig
      ⟨[[Script.record 0], [Script.record 1]], [(2, .convert)], 0⟩ 2).trace := by
  intro h
  have htrace : (runMain Script.runtime lossConfig
      ⟨[[Script.record 0], [Script.record 1]], [(2, .convert)], 0⟩ 2).trace
    = [.polled 0, .consumed [Script.record 0], .skipped [] (.keepFilter .fieldMissing),
        .skipped [] (.keepFilter .valueInvalid), .skipped [] (.keepFilter .excluded),
        .skipped [] .filterDropped, .polled 0, .consumed [Script.record 1],
        .wrote [Script.record 0] 1] ++ [.commit [(("events", 0), 2)]] := by decide +kernel
  rw [htrace] at h
  have hcov := h _ _ [] rfl ("events", 0) 2 (by simp) (Script.record 1) (by decide) rfl rfl
    (by decide)
  rcases hcov with ⟨batch, count, hw, hm⟩ | ⟨msgs, reason, hskip, hm⟩
  · obtain ⟨rfl, -⟩ : batch = [Script.record 0] ∧ count = 1 := by simpa using hw
    exact absurd hm (by decide)
  · obtain rfl : msgs = [] := by
      simp only [List.mem_cons, List.not_mem_nil, reduceCtorEq, Event.skipped.injEq, or_false,
        false_or] at hskip
      tauto
    exact absurd hm List.not_mem_nil

end Millpond.Main
