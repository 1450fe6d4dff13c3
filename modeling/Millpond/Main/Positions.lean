import Millpond.Main.NoLoss

set_option autoImplicit false

/-! # What a commit names

The offset handed to `kafka.commit` for a partition is the one after a record of that partition that
the process consumed. -/

namespace Millpond.Main

open Prog

variable {ε W : Type} {rt : Runtime ε W} {cfg : LoopConfig}

/-- A record of the partition at this offset was consumed. -/
def Took (trace : List Event) (key : Key) (offset : ℕ) : Prop :=
  ∃ m ∈ consumed trace, m.isRecord = true ∧ m.key = key ∧ m.offset = offset

/-- Every offset handed to `kafka.commit` is the one after a consumed record. -/
def CommitsTaken (trace : List Event) : Prop :=
  ∀ before offsets after, trace = before ++ .commit offsets :: after →
    ∀ key next, (key, next) ∈ offsets → ∃ offset, next = offset + 1 ∧ Took before key offset

theorem Took.append {trace : List Event} {key : Key} {offset : ℕ} (h : Took trace key offset)
    (events : List Event) : Took (trace ++ events) key offset := by
  obtain ⟨m, hm, hrest⟩ := h
  exact ⟨m, by rw [consumed_append]; exact List.mem_append_left _ hm, hrest⟩

theorem CommitsTaken.snoc {trace : List Event} (h : CommitsTaken trace) (e : Event)
    (hcommit : ∀ offsets, e = .commit offsets → ∀ key next, (key, next) ∈ offsets →
      ∃ offset, next = offset + 1 ∧ Took trace key offset) : CommitsTaken (trace ++ [e]) := by
  intro before offsets after heq key next hnext
  rcases List.eq_nil_or_concat after with rfl | ⟨after', last, rfl⟩
  · obtain ⟨rfl, he⟩ := List.append_inj' heq rfl
    exact hcommit offsets (List.singleton_inj.1 he) key next hnext
  · rw [List.concat_eq_append, ← List.cons_append, ← List.append_assoc] at heq
    obtain ⟨rfl, -⟩ := List.append_inj' heq rfl
    exact h before offsets after' rfl key next hnext

theorem CommitsTaken.append {trace events : List Event} (h : CommitsTaken trace)
    (hquiet : ∀ offsets, Event.commit offsets ∉ events) : CommitsTaken (trace ++ events) := by
  induction events generalizing trace with
  | nil => simpa using h
  | cons e rest ih =>
      rw [← List.singleton_append, ← List.append_assoc]
      refine ih (h.snoc e ?_) (fun offsets ho => hquiet offsets (List.mem_cons_of_mem _ ho))
      rintro offsets rfl
      exact absurd List.mem_cons_self (hquiet offsets)

/-- The entries of the dict come from consumed records. -/
def OffsetsTaken (trace : List Event) (offsets : Offsets) : Prop :=
  ∀ key first last, (key, (first, last)) ∈ offsets → Took trace key last

theorem OffsetsTaken.take {trace : List Event} {msgs : List Msg} :
    ∀ {offsets : Offsets}, OffsetsTaken trace offsets →
      (∀ m ∈ msgs, m.isRecord = true → m ∈ consumed trace) →
      OffsetsTaken trace (takeMessages msgs offsets).2 := by
  induction msgs with
  | nil => exact fun h _ => h
  | cons msg rest ih =>
      intro offsets h hmsgs
      have hrest : ∀ m ∈ rest, m.isRecord = true → m ∈ consumed trace :=
        fun m hm => hmsgs m (List.mem_cons_of_mem _ hm)
      unfold takeMessages
      split
      · exact ih h hrest
      split
      · exact ih h hrest
      · next herr hvalue =>
          have hrec : msg.isRecord = true := by
            simp only [Msg.isRecord, Bool.and_eq_true, Bool.not_eq_true']
            exact ⟨by simpa using herr, by simpa [Option.isSome_iff_ne_none] using hvalue⟩
          refine ih (fun key first last hentry => ?_) hrest
          have hin := hmsgs msg List.mem_cons_self hrec
          -- the end of the range is an old one or this record's offset
          rcases mem_noteOffset hentry with hold | hnew | ⟨range, hold, hwiden⟩
          · exact h key first last hold
          · obtain ⟨rfl, -, rfl⟩ : key = msg.key ∧ first = msg.offset ∧ last = msg.offset := by
              simpa using hnew
            exact ⟨msg, hin, hrec, rfl, rfl⟩
          · obtain ⟨rfl, -, rfl⟩ : key = msg.key ∧ first = min range.1 msg.offset ∧
                last = max range.2 msg.offset := by simpa using hwiden
            rcases max_choice range.2 msg.offset with hmax | hmax
            · exact hmax.symm ▸ h _ range.1 range.2 hold
            · exact ⟨msg, hin, hrec, rfl, hmax.symm⟩

/-! ## Runs -/

/-- The commits and the dict name consumed records only. -/
structure Named (s : St W) : Prop where
  commits : CommitsTaken s.trace
  offsets : OffsetsTaken s.trace s.offsets

theorem OffsetsTaken.append {trace : List Event} {offsets : Offsets} (h : OffsetsTaken trace offsets)
    (events : List Event) : OffsetsTaken (trace ++ events) offsets :=
  fun key first last hentry => (h key first last hentry).append events

theorem Named.polled {s s' : St W} (h : Named s) (hp : Polled s s') : Named s' := by
  obtain ⟨hsame, t, htr⟩ := hp
  refine ⟨?_, ?_⟩
  · rw [htr]
    exact h.commits.append (by simp)
  · rw [htr, hsame.offsets]
    exact h.offsets.append _

theorem CommitsTaken.received {trace events : List Event} {msgs : List Msg} (h : CommitsTaken trace)
    (hskip : OnlySkips events) : CommitsTaken (trace ++ .consumed msgs :: events) := by
  refine h.append fun offsets ho => ?_
  rcases List.mem_cons.1 ho with heq | ho
  · cases heq
  · exact hskip.no_commit offsets ho

theorem Named.received {msgs : List Msg} {s s' : St W} (h : Named s) (hr : Received msgs s s') :
    Named s' := by
  obtain ⟨hoff, events, table, tables, htr, hskip, -⟩ := hr
  refine ⟨?_, ?_⟩
  · rw [htr]
    exact h.commits.received hskip
  · rw [htr, hoff]
    refine (h.offsets.append _).take fun m hm hrec => ?_
    rw [consumed_append]
    refine List.mem_append_right _ (List.mem_append_left _ (List.mem_filter.2 ⟨hm, ?_⟩))
    exact (Bool.and_eq_true_iff.1 hrec).1

/-- Commits of the offsets in the dict. -/
theorem Named.wroteTrace {s : St W} (h : Named s) (batch : Table) (count n : ℕ) :
    CommitsTaken (s.trace ++ .wrote batch count :: List.replicate n (.commit (tpOffsets s.offsets))) := by
  have hwrote : CommitsTaken (s.trace ++ [.wrote batch count]) := h.commits.append (by simp)
  rw [← List.singleton_append, ← List.append_assoc]
  induction n with
  | zero => simpa using hwrote
  | succ n ih =>
      rw [List.replicate_succ', ← List.append_assoc]
      refine ih.snoc _ fun offsets heq key next hnext => ?_
      cases heq
      obtain ⟨⟨k, first, last⟩, hentry, hpair⟩ := List.mem_map.1 hnext
      obtain ⟨rfl, rfl⟩ := Prod.mk.inj hpair
      exact ⟨last, rfl, ((h.offsets k first last hentry).append _).append _⟩

theorem Named.wrote {s s' : St W} (h : Named s) (hw : Wrote s s') : Named s' := by
  obtain ⟨hsame, batch, count, n, -, htr⟩ := hw
  refine ⟨?_, ?_⟩
  · rw [htr]
    exact h.wroteTrace batch count n
  · rw [htr, hsame.offsets]
    exact h.offsets.append _

theorem Named.flushed {s s' : St W} (h : Named s) (hf : Flushed s s') : Named s' := by
  obtain ⟨-, -, hoff, batch, count, n, -, htr⟩ := hf
  refine ⟨?_, ?_⟩
  · rw [htr]
    exact h.wroteTrace batch count n
  · rw [hoff]
    exact fun _ _ _ hentry => absurd hentry List.not_mem_nil

theorem iteration_named (s : St W) (h : Named s) :
    wp (iteration rt cfg) (fun _ => Named)
      (fun e s' => CommitsTaken s'.trace ∧ (Named s' ∨ e.from stages)) s := by
  refine wp_iteration (J := Named) (fun s' hp => h.polled hp) ?_
    (fun msgs s₁ s₂ h₁ hr => h₁.received hr) ?_ (fun s₁ s₂ h₁ hf => h₁.flushed hf) ?_
  · exact fun e w _ => ⟨h.commits, Or.inl ⟨h.commits, h.offsets⟩⟩
  · intro msgs s₁ e s₂ h₁ hr
    obtain ⟨-, -, ⟨events, htr, hskip⟩, horigin⟩ := hr
    rw [htr]
    exact ⟨h₁.commits.received hskip, Or.inr horigin⟩
  · intro s₁ e s₂ h₁ hf
    cases hf with
    | unwritten same trace _ =>
        have hnamed : Named s₂ := by
          refine ⟨?_, ?_⟩
          · rw [trace]
            exact h₁.commits
          · rw [trace, same.offsets]
            exact h₁.offsets
        exact ⟨hnamed.commits, Or.inl hnamed⟩
    | written hwrote _ => exact ⟨(h₁.wrote hwrote).commits, Or.inl (h₁.wrote hwrote)⟩

theorem shutDown_commitsTaken {s : St W} (hcommits : CommitsTaken s.trace)
    (h : Named s ∨ s.pendingRecords = 0) (loopError : Option (Failure ε)) :
    CommitsTaken (final (shutDown rt cfg loopError) s).trace := by
  refine final_of_wp (P := fun s' => CommitsTaken s'.trace)
    (wp_mono (shutDown_spec loopError s) (fun _ s' hs => ?_) (fun _ s' hs => ?_))
  all_goals
    cases hs with
    | idle _ trace => rw [trace]; exact hcommits
    | flushed hpos wrote => exact ((h.resolve_right (Nat.pos_iff_ne_zero.1 hpos)).wrote wrote).commits

/-- In every run in which no stage raises with rows pending, a commit names what was consumed. -/
theorem runMain_commitsTaken (rt : Runtime ε W) (cfg : LoopConfig) (w : W) (n : ℕ)
    (h : ¬ LosesBatch rt cfg w n) : CommitsTaken (runMain rt cfg w n).trace := by
  have hloop : wp (loop rt cfg n) (fun _ => Named)
      (fun e s' => CommitsTaken s'.trace ∧ (Named s' ∨ e.from stages)) (St.init rt w) :=
    wp_whileLoop (fun s hI _ => iteration_named s hI) n _
      ⟨fun before offsets after heq => by simp [St.init] at heq,
        fun key first last hentry => by simp [St.init] at hentry⟩
  refine runMain_rule (P := fun s => CommitsTaken s.trace) hloop (fun s hnamed => hnamed.commits)
    (fun s hnamed => shutDown_commitsTaken hnamed.commits (Or.inl hnamed) none)
    (fun s hend => hend.1) ?_
  rintro failure s hfailure ⟨hcommits, hnamed⟩
  exact shutDown_commitsTaken hcommits
    (hnamed.imp_right fun hstage => pendingRecords_eq_zero h hfailure hstage) (some failure)

end Millpond.Main
