import Millpond.Main.NoLoss

set_option autoImplicit false

/-! # Duplicates bounded by one flush batch

A row leaves the buffer only when its batch was written, committed and sampled for lag. Between the
write and the clear an exception leaves the written rows in the buffer, and the final flush writes
them again; in every other run a record reaches at most one batch whose write returned. -/

namespace Millpond.Main

open Prog

variable {ε W : Type} {rt : Runtime ε W} {cfg : LoopConfig}

/-! ## The property -/

/-- The batches a `sink.write` returned for. -/
def written (trace : List Event) : List Table :=
  trace.filterMap fun
    | .wrote batch _ => some batch
    | _ => none

/-- How many of them contain a record. -/
def publications (trace : List Event) (m : Msg) : ℕ := (written trace).countP (m ∈ ·)

/-- Kafka delivers each partition's records in offset order. -/
def InOrder (msgs : List Msg) : Prop :=
  msgs.Pairwise fun a b => a.key = b.key → a.offset < b.offset

/-- The loop ended after the write of a flush had returned and before the buffer was cleared. -/
def DiesAfterWrite (rt : Runtime ε W) (cfg : LoopConfig) (w : W) (n : ℕ) : Prop :=
  ∃ failure s, loopFailure rt cfg w n = some (failure, s) ∧
    failure.origin ∈ [Call.commit, .flushMetrics, .lagSample]

/-- A run that Kafka serves in order and that does not die between a write and its clear. -/
structure CleanRun (rt : Runtime ε W) (cfg : LoopConfig) (w : W) (n : ℕ) : Prop where
  survives : ¬ DiesAfterWrite rt cfg w n
  ordered : InOrder (consumed (runMain rt cfg w n).trace)

/-! ## Counting copies -/

theorem written_append (trace events : List Event) :
    written (trace ++ events) = written trace ++ written events := by
  simp [written]

theorem OnlySkips.written {events : List Event} (h : OnlySkips events) : written events = [] := by
  refine List.filterMap_eq_nil_iff.2 (fun e he => ?_)
  obtain ⟨msgs, reason, rfl⟩ := h e he
  rfl

theorem written_commits (offsets : List (Key × ℕ)) (n : ℕ) :
    written (List.replicate n (.commit offsets)) = [] := by
  refine List.filterMap_eq_nil_iff.2 (fun e he => ?_)
  rw [List.eq_of_mem_replicate he]

theorem consumed_commits (offsets : List (Key × ℕ)) (n : ℕ) :
    consumed (List.replicate n (.commit offsets)) = [] := by
  refine List.flatMap_eq_nil_iff.2 (fun e he => ?_)
  rw [List.eq_of_mem_replicate he]

/-- Copies of `m` in the batches written, plus those in `held`, were each consumed. -/
def Spent (held : List Msg) (trace : List Event) : Prop :=
  ∀ m, (written trace).flatten.count m + held.count m ≤ (consumed trace).count m

theorem Spent.weaken {held : List Msg} {trace : List Event} (h : Spent held trace) :
    Spent [] trace := by
  intro m
  have := h m
  simp only [List.count_nil, Nat.add_zero]
  omega

theorem Spent.polled {s s' : St W} (h : Spent s.pending.flatten s.trace) (hp : Polled s s') :
    Spent s'.pending.flatten s'.trace := by
  obtain ⟨hsame, t, htr⟩ := hp
  intro m
  rw [hsame.pending, htr, written_append, consumed_append]
  simpa [written, consumed] using h m

theorem Spent.received {msgs : List Msg} {s s' : St W} (h : Spent s.pending.flatten s.trace)
    (hr : Received msgs s s') : Spent s'.pending.flatten s'.trace := by
  obtain ⟨-, events, table, tables, htr, hskip, hpend, htab, -, hsub, -⟩ := hr
  intro m
  have hsub' : table.count m ≤ (msgs.filter (!·.error)).count m := by
    refine (hsub.trans ?_).count_le m
    exact List.monotone_filter_right msgs (fun m' hm' => by
      simp only [Msg.isRecord, Bool.and_eq_true] at hm'
      exact hm'.1)
  have hcons : consumed (.consumed (msgs.filter (!·.error)) :: events)
      = msgs.filter (!·.error) ++ consumed events := rfl
  have hwr : written (.consumed (msgs.filter (!·.error)) :: events) = written events := rfl
  have := h m
  rw [hpend, List.flatten_append, htab, htr, written_append, consumed_append, hcons, hwr,
    hskip.written, hskip.consumed]
  simp only [List.append_nil, List.count_append]
  omega

theorem Spent.receiveFailed {msgs : List Msg} {s s' : St W} {e : Exn ε}
    (h : Spent s.pending.flatten s.trace) (hr : ReceiveFailed msgs s e s') :
    Spent s'.pending.flatten s'.trace := by
  obtain ⟨hpend, -, ⟨events, htr, hskip⟩, -⟩ := hr
  intro m
  have hcons : consumed (.consumed (msgs.filter (!·.error)) :: events)
      = msgs.filter (!·.error) ++ consumed events := rfl
  have hwr : written (.consumed (msgs.filter (!·.error)) :: events) = written events := rfl
  have := h m
  rw [hpend, htr, written_append, consumed_append, hcons, hwr, hskip.written, hskip.consumed]
  simp only [List.append_nil, List.count_append]
  omega

/-- Writing the buffer spends the copies it held. -/
theorem Spent.written {s : St W} (h : Spent s.pending.flatten s.trace) {batch : Table}
    {count n : ℕ} {offsets : List (Key × ℕ)} (hbatch : batch.Perm s.pending.flatten)
    {trace : List Event}
    (htr : trace = s.trace ++ .wrote batch count :: List.replicate n (.commit offsets)) :
    Spent [] trace := by
  intro m
  have hwr : Main.written (.wrote batch count :: List.replicate n (.commit offsets))
      = batch :: Main.written (List.replicate n (.commit offsets)) := rfl
  have hcons : consumed (.wrote batch count :: List.replicate n (.commit offsets))
      = consumed (List.replicate n (.commit offsets)) := rfl
  have := h m
  rw [htr, written_append, consumed_append, hwr, hcons, written_commits, consumed_commits]
  simp only [List.flatten_append, List.flatten_cons, List.flatten_nil, List.append_nil,
    List.count_append, List.count_nil, Nat.add_zero, hbatch.count_eq]
  omega

/-! ## Runs -/

/-- What the loop leaves behind: unless it died after a write, the buffer is still unspent. -/
def SpentExit (e : Exn ε) (s : St W) : Prop :=
  Spent [] s.trace ∧
    (Spent s.pending.flatten s.trace ∨ e.from [.commit, .flushMetrics, .lagSample])

theorem iteration_spent (s : St W) (h : Spent s.pending.flatten s.trace) :
    wp (iteration rt cfg) (fun _ s' => Spent s'.pending.flatten s'.trace) SpentExit s := by
  refine wp_iteration (J := fun s' => Spent s'.pending.flatten s'.trace)
    (fun s' hp => h.polled hp) ?_ (fun msgs s₁ s₂ h₁ hr => h₁.received hr) ?_ ?_ ?_
  · exact fun e w _ => ⟨h.weaken, Or.inl h⟩
  · exact fun msgs s₁ e s₂ h₁ hr => ⟨(h₁.receiveFailed hr).weaken, Or.inl (h₁.receiveFailed hr)⟩
  · rintro s₁ s₂ h₁ ⟨hpend, -, -, batch, count, n, hbatch, htr⟩
    rw [hpend]
    exact h₁.written hbatch htr
  · intro s₁ e s₂ h₁ hf
    cases hf with
    | unwritten same trace _ =>
        rw [SpentExit, same.pending, trace]
        exact ⟨h₁.weaken, Or.inl h₁⟩
    | written wrote origin =>
        obtain ⟨-, batch, count, n, hbatch, htr⟩ := wrote
        exact ⟨h₁.written hbatch htr, Or.inr origin⟩

theorem loop_spent (n : ℕ) (w : W) :
    wp (loop rt cfg n) (fun _ s => Spent s.pending.flatten s.trace) SpentExit (St.init rt w) :=
  wp_whileLoop (fun s hI _ => iteration_spent s hI) n _ (fun m => by simp [St.init, written])

theorem shutDown_spent {s : St W} (h : Spent s.pending.flatten s.trace)
    (loopError : Option (Failure ε)) : Spent [] (final (shutDown rt cfg loopError) s).trace := by
  refine final_of_wp (P := fun s' => Spent [] s'.trace)
    (wp_mono (shutDown_spec loopError s) (fun _ s' hs => ?_) (fun _ s' hs => ?_))
  all_goals
    cases hs with
    | idle _ trace => rw [trace]; exact h.weaken
    | flushed _ wrote =>
        obtain ⟨-, batch, count, n, hbatch, htr⟩ := wrote
        exact h.written hbatch htr

/-- Every copy of a record in a written batch was consumed, unless the loop died after a write. -/
theorem run_spent (w : W) (n : ℕ) (h : ¬ DiesAfterWrite rt cfg w n) :
    Spent [] (runMain rt cfg w n).trace := by
  refine runMain_rule (P := fun s => Spent [] s.trace) (loop_spent n w) (fun s hspent => hspent.weaken)
    (fun s hspent => shutDown_spent hspent none) (fun s hend => hend.1) ?_
  rintro failure s hfailure ⟨-, hheld⟩
  refine shutDown_spent (hheld.resolve_right fun horigin => ?_) (some failure)
  exact h ⟨failure, s, hfailure, Exn.from_raised.1 horigin⟩

theorem InOrder.count_le_one {msgs : List Msg} (h : InOrder msgs) (m : Msg) :
    msgs.count m ≤ 1 := by
  have hnodup : msgs.Nodup := by
    refine List.Pairwise.imp (fun {a b} hab heq => ?_) h
    subst heq
    exact Nat.lt_irrefl _ (hab rfl)
  exact List.nodup_iff_count_le_one.1 hnodup m

theorem countP_mem_le (batches : List Table) (m : Msg) :
    batches.countP (m ∈ ·) ≤ batches.flatten.count m := by
  induction batches with
  | nil => simp
  | cons batch rest ih =>
      rw [List.countP_cons, List.flatten_cons, List.count_append]
      by_cases hm : m ∈ batch
      · have := List.count_pos_iff.2 hm
        simp only [hm, decide_true, if_true]
        omega
      · simp only [hm, decide_false, Bool.false_eq_true, if_false]
        omega

theorem publications_le_one {w : W} {n : ℕ} (h : CleanRun rt cfg w n) (m : Msg) :
    publications (runMain rt cfg w n).trace m ≤ 1 := by
  have hspent := run_spent w n h.survives m
  have honce := h.ordered.count_le_one m
  have hle := countP_mem_le (written (runMain rt cfg w n).trace) m
  unfold publications
  simp only [List.count_nil, Nat.add_zero] at hspent
  omega

/-- **Duplicates are bounded by the restart.** In a run that does not die between a write and the
    clear after it, every record is in at most one batch whose write returned, so such a run and
    one more after a crash publish it at most twice. -/
theorem duplicates_bounded (rt : Runtime ε W) (cfg : LoopConfig) (w : W) (n : ℕ)
    (h : CleanRun rt cfg w n) :
    (∀ m, publications (runMain rt cfg w n).trace m ≤ 1) ∧
      ∀ w' n', CleanRun rt cfg w' n' → ∀ m,
        publications (runMain rt cfg w n).trace m + publications (runMain rt cfg w' n').trace m
          ≤ 2 := by
  refine ⟨publications_le_one h, fun w' n' h' m => ?_⟩
  have h₁ := publications_le_one h m
  have h₂ := publications_le_one h' m
  omega

/-- The buffer flushes as soon as it holds a row. -/
def eagerConfig : LoopConfig where
  flushIntervalS := 60
  flushSize := 1
  consumeBatchSize := 10
  hoglake := false

/-- Two polls, each flushed and committed. -/
theorem duplicates_bounded_two_flushes :
    CleanRun Script.runtime eagerConfig ⟨[[Script.record 0], [Script.record 1]], [], 0⟩ 2 ∧
      ∀ m, publications (runMain Script.runtime eagerConfig
        ⟨[[Script.record 0], [Script.record 1]], [], 0⟩ 2).trace m ≤ 1 := by
  have hclean : CleanRun Script.runtime eagerConfig
      ⟨[[Script.record 0], [Script.record 1]], [], 0⟩ 2 := by
    refine ⟨?_, ?_⟩
    · rintro ⟨failure, s, hfail, -⟩
      have hnone : (loopFailure Script.runtime eagerConfig
          ⟨[[Script.record 0], [Script.record 1]], [], 0⟩ 2).isNone = true := by decide +kernel
      rw [hfail] at hnone
      exact absurd hnone (by simp)
    · unfold InOrder
      decide +kernel
  exact ⟨hclean, (duplicates_bounded _ _ _ _ hclean).1⟩

/-- Every offset commit of the first poll raises: the final flush writes its row again. -/
theorem duplicate_after_commit_failure :
    ¬ ∀ m, publications (runMain Script.runtime eagerConfig
      ⟨[[Script.record 0]], [(1, .commit)], 0⟩ 1).trace m ≤ 1 := by
  intro h
  have htwice : publications (runMain Script.runtime eagerConfig
      ⟨[[Script.record 0]], [(1, .commit)], 0⟩ 1).trace (Script.record 0) = 2 := by decide +kernel
  have := h (Script.record 0)
  omega

end Millpond.Main
