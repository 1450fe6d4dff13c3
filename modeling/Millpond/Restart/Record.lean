import Millpond.Main.Windows
import Millpond.Hoglake.Counters
import Millpond.Hoglake.Receipts
import Millpond.Restart.Lifetimes

set_option autoImplicit false

/-! # The record of a process

What is known of a process at every moment, and afterwards of the moment of each of its commits. Every
call of `write` took a window of what was consumed. Every request in the world was there at the start, is
another writer's, or was made for one of these calls. And every `write` that returned was answered by
such a request, unless it skipped its batch. -/

namespace Millpond.Restart

open Prog
open Main (Msg Offsets)
open Hoglake (Payload Sound Standing Asks)

variable {E V : Type}

/-! ## Records -/

def isCommit : Main.Event → Bool
  | .commit _ => true
  | _ => false

/-- The flushes that `write` was called for. -/
def Called (writes : List (Hoglake.Flush Msg V × Hoglake.St Msg)) (flush : Hoglake.Flush Msg V) : Prop :=
  ∃ s, (flush, s) ∈ writes

variable (pod : Pod E V)

/-- The flush is that of a window of what was consumed. -/
def Pod.Explains (trace : List Main.Event) (flush : Hoglake.Flush Msg V) : Prop :=
  ∃ batch offsets, flush.batch = pod.batch batch ∧
    flush.identity = some (offsets.insertionSort (Main.offsetLe · ·)) ∧ Main.FromWindow trace batch offsets

/-- Where a request in the world `w` of a process comes from. -/
def Pod.Comes (start w : Hoglake.World Msg) (flushes : Hoglake.Flush Msg V → Prop) (request : Payload) :
    Prop :=
  start.net.Requests request ∨ start.Others request ∨
    ∃ flush, flushes flush ∧ request.MadeFor pod.sink w.objects flush

/-- A call for this batch was answered with the receipt of this commit. -/
structure Pod.Answered (w : Hoglake.World Msg) (batch : Main.Table)
    (call : Hoglake.Flush Msg V × Hoglake.St Msg) (c : Hoglake.Commit) : Prop where
  batch_eq : call.1.batch = pod.batch batch
  answered : Hoglake.AnsweredBy pod.sink pod.backend call.1 call.2 c.request
  key : ∃ uuid offsets, call.1.identity = some offsets ∧
    c.request.idempotencyKey = .uuid5 (Hoglake.flushName pod.sink (some uuid) offsets)
  applied : w.net.server.ledger.lookup c.request.idempotencyKey = some c

/-- What is known when the process has come to this trace, these calls and this world. -/
structure Pod.Recorded (start : Hoglake.World Msg) (trace : List Main.Event)
    (writes : List (Hoglake.Flush Msg V × Hoglake.St Msg)) (w : Hoglake.World Msg) : Prop where
  grows : start.Grows w
  turns : w.turns = start.turns
  calls : ∀ call ∈ writes, pod.Explains trace call.1
  requests : ∀ request, w.net.Requests request → pod.Comes start w (Called writes) request
  wrote : ∀ batch count, .wrote batch count ∈ trace → Hoglake.isSkipped (pod.batch batch) = true ∨
    ∃ call ∈ writes, ∃ c, pod.Answered w batch call c

/-- What is known now, and what was known at each commit. -/
structure Pod.Records (start : Hoglake.World Msg) (trace : List Main.Event) (s : State E V) : Prop where
  now : pod.Recorded start trace s.writes s.sink.world
  commits : s.commits.length = trace.countP isCommit
  past : ∀ before offsets after, trace = before ++ .commit offsets :: after →
    ∃ world writes, s.commits[before.countP isCommit]? = some world ∧
      (∀ call ∈ writes, call ∈ s.writes) ∧ pod.Recorded start before writes world

/-- And of a process that is alive. -/
structure Pod.Alive (start : Hoglake.World Msg) (trace : List Main.Event) (s : State E V) : Prop where
  sound : Sound pod.sink (Called s.writes) s.sink
  records : pod.Records start trace s

variable {pod} {start w w' : Hoglake.World Msg} {trace : List Main.Event}
  {writes writes' : List (Hoglake.Flush Msg V × Hoglake.St Msg)}

/-! ## What keeps a record -/

theorem Pod.Explains.append {flush : Hoglake.Flush Msg V} (h : pod.Explains trace flush)
    (events : List Main.Event) : pod.Explains (trace ++ events) flush := by
  obtain ⟨batch, offsets, hbatch, hid, hfrom⟩ := h
  exact ⟨batch, offsets, hbatch, hid, hfrom.append events⟩

theorem Called.mono {flush : Hoglake.Flush Msg V} (h : Called writes flush)
    (hsub : ∀ call ∈ writes, call ∈ writes') : Called writes' flush := by
  obtain ⟨s, hs⟩ := h
  exact ⟨s, hsub _ hs⟩

theorem Pod.Comes.mono {request : Payload} (h : pod.Comes start w (Called writes) request)
    (hgrows : w.Grows w') (hsub : ∀ call ∈ writes, call ∈ writes') :
    pod.Comes start w' (Called writes') request := by
  refine h.imp id fun h => h.imp id ?_
  rintro ⟨flush, hflush, hmade⟩
  exact ⟨flush, hflush.mono hsub, hmade.grow hgrows.objects⟩

theorem Pod.Answered.grow {batch : Main.Table} {call : Hoglake.Flush Msg V × Hoglake.St Msg}
    {c : Hoglake.Commit} (h : pod.Answered w batch call c) (hgrows : w.Grows w') :
    pod.Answered w' batch call c :=
  ⟨h.batch_eq, h.answered, h.key, hgrows.server.receipts _ _ h.applied⟩

/-- The world goes on, perhaps in a call of `write` that was made for one more flush. -/
theorem Pod.Recorded.step (h : pod.Recorded start trace writes w) (hgrows : w.Grows w')
    (hasks : w.Hears (fun request => ∃ flush, Called writes' flush ∧
      request.MadeFor pod.sink w'.objects flush) w')
    (hsub : ∀ call ∈ writes, call ∈ writes') (hcalls : ∀ call ∈ writes', pod.Explains trace call.1) :
    pod.Recorded start trace writes' w' := by
  refine ⟨h.grows.trans hgrows, hasks.turns.trans h.turns, hcalls, fun request hr => ?_,
    fun batch count hw => ?_⟩
  · rcases hasks.requests request hr with hold | ⟨n, foreign, hmove⟩ | hown
    · exact (h.requests request hold).mono hgrows hsub
    · exact Or.inr (Or.inl ⟨n, foreign, h.turns ▸ hmove⟩)
    · exact Or.inr (Or.inr hown)
  · refine (h.wrote batch count hw).imp id ?_
    rintro ⟨call, hcall, c, hanswered⟩
    exact ⟨call, hsub call hcall, c, hanswered.grow hgrows⟩

/-- One more event. -/
theorem Pod.Recorded.snoc (h : pod.Recorded start trace writes w) (e : Main.Event)
    (hwrote : ∀ batch count, e = .wrote batch count → Hoglake.isSkipped (pod.batch batch) = true ∨
      ∃ call ∈ writes, ∃ c, pod.Answered w batch call c) :
    pod.Recorded start (trace ++ [e]) writes w := by
  refine ⟨h.grows, h.turns, fun call hcall => (h.calls call hcall).append [e], h.requests,
    fun batch count hw => ?_⟩
  rcases List.mem_append.1 hw with hold | hnew
  · exact h.wrote batch count hold
  · exact hwrote batch count (List.mem_singleton.1 hnew).symm

variable {s s' : State E V}

/-- What was known at the commits stays known. -/
theorem Pod.Records.keep (h : pod.Records start trace s) (hcommits : s'.commits = s.commits)
    (hsub : ∀ call ∈ s.writes, call ∈ s'.writes)
    (hnow : pod.Recorded start trace s'.writes s'.sink.world) : pod.Records start trace s' := by
  refine ⟨hnow, hcommits ▸ h.commits, fun before offsets after heq => ?_⟩
  obtain ⟨world, writes, hworld, hwrites, hpast⟩ := h.past before offsets after heq
  exact ⟨world, writes, hcommits ▸ hworld, fun call hcall => hsub call (hwrites call hcall), hpast⟩

theorem Pod.Records.snoc (h : pod.Records start trace s) {e : Main.Event} (hcommit : isCommit e = false)
    (hnow : pod.Recorded start (trace ++ [e]) s.writes s.sink.world) :
    pod.Records start (trace ++ [e]) s := by
  refine ⟨hnow, ?_, fun before offsets after heq => ?_⟩
  · rw [List.countP_append, List.countP_singleton, hcommit, h.commits]
    rfl
  · rcases List.eq_nil_or_concat after with rfl | ⟨after', last, rfl⟩
    · obtain ⟨-, he⟩ := List.append_inj' heq rfl
      obtain rfl : e = .commit offsets := List.singleton_inj.1 he
      exact absurd hcommit (by simp [isCommit])
    · rw [List.concat_eq_append, ← List.cons_append, ← List.append_assoc] at heq
      exact h.past before offsets after' (List.append_inj' heq rfl).1

/-- A commit, recorded with the world it found. -/
theorem Pod.Records.commit (h : pod.Records start trace s) (offsets : List (Main.Key × ℕ))
    (hwrites : s'.writes = s.writes) (hcommits : s'.commits = s.commits ++ [s.sink.world])
    (hnow : pod.Recorded start trace s'.writes s'.sink.world) :
    pod.Records start (trace ++ [.commit offsets]) s' := by
  refine ⟨hnow.snoc _ ?_, ?_, fun before offsets' after heq => ?_⟩
  · exact fun _ _ heq => absurd heq (by simp)
  · rw [hcommits, List.length_append, List.countP_append, h.commits]
    rfl
  · rcases List.eq_nil_or_concat after with rfl | ⟨after', last, rfl⟩
    · obtain ⟨rfl, -⟩ := List.append_inj' heq rfl
      refine ⟨s.sink.world, s.writes, ?_, fun _ hcall => hwrites ▸ hcall, h.now⟩
      rw [hcommits, ← h.commits, List.getElem?_append_right (Nat.le_refl _), Nat.sub_self]
      rfl
    · rw [List.concat_eq_append, ← List.cons_append, ← List.append_assoc] at heq
      obtain ⟨rfl, -⟩ := List.append_inj' heq rfl
      obtain ⟨world, writes, hworld, hsub, hpast⟩ := h.past before offsets' after' rfl
      refine ⟨world, writes, ?_, fun call hcall => hwrites ▸ hsub call hcall, hpast⟩
      -- an earlier commit keeps its place among the worlds
      have hlt : before.countP isCommit < s.commits.length := (List.getElem?_eq_some_iff.1 hworld).1
      rw [hcommits, List.getElem?_append_left hlt, hworld]

/-! ## The calls of the loop -/

variable (pod) in
theorem elapse_keeps (s : State E V) (d : ℚ) (nonneg : 0 ≤ d) :
    Hoglake.Keeps pod.sink s.sink (s.elapse d nonneg).sink := by
  have hworld : s.sink.world.Evolves (s.elapse d nonneg).sink.world :=
    ⟨Hoglake.Net.evolves_move s.sink.world.net (.elapse d nonneg), rfl, rfl, rfl, rfl⟩
  exact (Standing.moved s.sink hworld s.sink.sink.retryAfter).keeps

theorem elapse_hears (s : State E V) (d : ℚ) (nonneg : 0 ≤ d) {own : Payload → Prop} :
    s.sink.world.Hears own (s.elapse d nonneg).sink.world :=
  Hoglake.World.SameRequests.hears ⟨rfl, rfl, rfl⟩

/-- Nothing is written, committed or requested. -/
structure Pod.Idles (pod : Pod E V) (s s' : State E V) : Prop where
  keeps : Hoglake.Keeps pod.sink s.sink s'.sink
  hears : s.sink.world.Hears Hoglake.NoRequest s'.sink.world
  writes : s'.writes = s.writes
  commits : s'.commits = s.commits

theorem aside_idles (h : pod.runtime.Aside s s') : pod.Idles s s' := by
  cases h with
  | sleep delay => exact ⟨elapse_keeps pod s _ _, elapse_hears s _ _, rfl, rfl⟩
  | uniform upper => exact ⟨(Standing.refl _).keeps, .refl _, rfl, rfl⟩
  | consume count timeout => exact ⟨elapse_keeps pod s _ _, elapse_hears s _ _, rfl, rfl⟩
  | attempt call => exact ⟨elapse_keeps pod s _ _, elapse_hears s _ _, rfl, rfl⟩
  | resetCaches => exact ⟨⟨.single .reset, Or.inr rfl⟩, .refl _, rfl, rfl⟩
  | hint some_ =>
      obtain rfl := Option.some.inj some_
      have hstays : s.sink.world.Evolves s.sink.world := .refl _
      exact ⟨(Standing.moved s.sink hstays none).keeps, .refl _, rfl, rfl⟩

theorem Pod.Alive.idle (h : pod.Alive start trace s) (hidle : pod.Idles s s') :
    pod.Alive start trace s' := by
  refine ⟨hidle.writes ▸ h.sound.keep hidle.keeps, ?_⟩
  have hsub : ∀ call ∈ s.writes, call ∈ s'.writes := fun _ hcall => hidle.writes ▸ hcall
  refine h.records.keep hidle.commits hsub (h.records.now.step hidle.keeps.steps.grows
    (hidle.hears.mono fun _ => False.elim) hsub ?_)
  rw [hidle.writes]
  exact h.records.now.calls

theorem aside_event {e : Main.Event} (h : e.Aside) :
    isCommit e = false ∧ ∀ batch count, e ≠ .wrote batch count := by
  cases e <;> simp_all [Main.Event.Aside, isCommit]

variable (pod) in
/-- The flush that the loop makes names its ranges. -/
theorem flushOf_identity {offsets : Offsets} (trigger : Main.Trigger) (table : Main.Table)
    (h : offsets ≠ []) : (pod.flushOf table (Main.sinkWriteKwargs pod.loop offsets trigger)).identity
      = some (offsets.insertionSort (Main.offsetLe · ·)) := by
  have hne : offsets.insertionSort (Main.offsetLe · ·) ≠ [] := by
    intro hnil
    have hperm := List.perm_insertionSort (Main.offsetLe · ·) offsets
    rw [hnil] at hperm
    exact h hperm.symm.eq_nil
  obtain ⟨quad, rest, hcons⟩ := List.exists_cons_of_ne_nil hne
  unfold Pod.flushOf Main.sinkWriteKwargs Hoglake.Flush.identity
  rw [if_pos pod.hoglake]
  simp only [Option.map_some, hcons]

/-- **A call of `write`** records itself and, when it returns, its answer. -/
theorem write_records (h : pod.Alive start trace s) {batch : Main.Table} {offsets : Offsets}
    (trigger : Main.Trigger) (hfrom : Main.FromWindow trace batch offsets) :
    Main.Ends (pod.write batch (Main.sinkWriteKwargs pod.loop offsets trigger) s)
      (fun count => pod.Alive start (trace ++ [.wrote batch count])) (pod.Alive start trace)
      (pod.Records start trace) := by
  obtain ⟨hsound, hrecords⟩ := h
  have hid := flushOf_identity pod trigger batch hfrom.1
  generalize hflush : pod.flushOf batch (Main.sinkWriteKwargs pod.loop offsets trigger) = flush at *
  have hbatch : flush.batch = pod.batch batch := by rw [← hflush]; rfl
  -- the calls with this one among them
  have hold : ∀ call ∈ s.writes, call ∈ s.writes ++ [(flush, s.sink)] :=
    fun _ hcall => List.mem_append_left _ hcall
  have hthis : (flush, s.sink) ∈ s.writes ++ [(flush, s.sink)] :=
    List.mem_append_right _ List.mem_cons_self
  have hknown : Called (s.writes ++ [(flush, s.sink)]) flush := ⟨s.sink, hthis⟩
  have hsound' := hsound.mono fun _ hcalled => hcalled.mono hold
  have hcalls : ∀ call ∈ s.writes ++ [(flush, s.sink)], pod.Explains trace call.1 := by
    intro call hcall
    rcases List.mem_append.1 hcall with hearlier | hlast
    · exact hrecords.now.calls call hearlier
    · rw [List.mem_singleton.1 hlast]
      exact ⟨batch, offsets, hbatch, hid, hfrom⟩
  have hspec := Hoglake.write_spec pod.backend flush hknown hsound'
  have hasks := Hoglake.write_asks pod.backend flush hknown hsound'
  have hkept : ∀ sink : Hoglake.St Msg, s.sink.world.Grows sink.world →
      Asks pod.sink (Called (s.writes ++ [(flush, s.sink)])) s.sink sink →
      pod.Records start trace { s with sink := sink, writes := s.writes ++ [(flush, s.sink)] } :=
    fun sink hgrows hasks => hrecords.keep rfl hold (hrecords.now.step hgrows hasks hold hcalls)
  unfold Main.Ends Pod.write
  simp only [hflush]
  cases hrun : Hoglake.write pod.sink pod.backend flush s.sink with
  | ok count sink =>
      have hkeeping := Hoglake.WriteReturns.keeping ((wp_of_ok hrun).1 hspec) hsound'
      have hstep := hkept sink hkeeping.steps.grows ((wp_of_ok hrun).1 hasks)
      refine ⟨hkeeping.sound, hstep.snoc rfl (hstep.now.snoc _ fun batch' count' heq => ?_)⟩
      obtain ⟨rfl, rfl⟩ : batch = batch' ∧ count = count' := by simpa using heq
      rcases Hoglake.write_answered hsound' hknown hid hrun with hskip | ⟨uuid, c, hanswer, hkey, hc⟩
      · exact Or.inl (hbatch ▸ hskip)
      · exact Or.inr ⟨(flush, s.sink), hthis, c, hbatch, hanswer, ⟨uuid, _, hid, hkey⟩, hc⟩
  | error r sink =>
      have hspec := (wp_of_error hrun).1 hspec
      have hasks := (wp_of_error hrun).1 hasks
      have hstep := hkept sink (hspec.grows fun hkeeping => hkeeping.steps.grows) hasks
      dsimp only
      -- a process that died in the call leaves the world it came to, and no sink
      by_cases hkilled : r.error = .killed
      · rw [if_pos hkilled]
        exact hstep
      · rw [if_neg hkilled]
        unfold Hoglake.Fails at hspec
        rw [if_neg hkilled] at hspec
        exact ⟨hspec.sound, hstep⟩

/-- A call of `kafka.commit`, however it ends. -/
theorem commit_records (h : pod.Alive start trace s) (offsets : List (Main.Key × ℕ)) :
    pod.Alive start (trace ++ [.commit offsets]) (pod.commitOffsets offsets s).2 := by
  have nonneg := (pod.commit offsets s.env).elapsed_nonneg
  have hkeeps := elapse_keeps pod s _ nonneg
  have hnow := h.records.now.step hkeeps.steps.grows (elapse_hears s _ nonneg) (fun _ hcall => hcall)
    h.records.now.calls
  exact ⟨h.sound.keep hkeeps, h.records.commit offsets rfl rfl hnow⟩

/-- **The loop keeps the record.** -/
theorem observer_records (pod : Pod E V) (start : Hoglake.World Msg) :
    Main.Observer pod.runtime pod.loop Main.FromWindow (pod.Alive start) (pod.Records start) where
  weaken := fun _ _ h => h.records
  aside := fun _ _ _ haside h => h.idle (aside_idles haside)
  event := by
    intro trace s e he h
    obtain ⟨hcommit, hwrote⟩ := aside_event he
    exact ⟨h.sound, h.records.snoc hcommit
      (h.records.now.snoc e fun batch count heq => absurd heq (hwrote batch count))⟩
  write := fun _ _ _ _ trigger hfrom h => write_records h trigger hfrom
  commit := by
    intro trace s offsets h
    have hends := commit_records h offsets
    show Main.Ends (pod.commitOffsets offsets s) _ _ _
    unfold Main.Ends
    rcases hcommit : pod.commitOffsets offsets s with ⟨outcome, s'⟩
    rw [hcommit] at hends
    cases outcome with
    | ok _ => exact hends
    | raised e => exact hends
    | killed => exact hends.records

/-- A process that starts has nothing to record. -/
theorem alive_boot (env : E) (broker : Main.Key → ℕ) (world : Hoglake.World Msg) :
    pod.Alive world [] (.boot env broker world) := by
  refine ⟨Hoglake.sound_new world, ⟨.refl _, rfl, fun _ h => absurd h List.not_mem_nil,
    fun _ hr => Or.inl hr, fun _ _ h => absurd h List.not_mem_nil⟩, rfl, fun before offsets after heq => ?_⟩
  exact absurd heq (by simp)

/-- The whole life of a process that loses no batch to a stage. -/
theorem live_records (life : Lifetime E V) {env : E} {broker : Main.Key → ℕ}
    {world : Hoglake.World Msg} (hstart : life.start = .boot env broker world)
    (hstages : ¬ Main.LosesBatch pod.runtime pod.loop life.start life.iterations) :
    pod.Records world (pod.live life).trace (pod.live life).world := by
  refine (observer_records pod world).runMain Main.windowed_invariant life.start life.iterations ?_
    (Main.windowed_init pod.runtime life.start) (Or.inr hstages)
  rw [hstart]
  exact alive_boot env broker world

end Millpond.Restart
