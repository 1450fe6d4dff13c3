import Millpond.Hoglake.FlushKey
import Millpond.Hoglake.Publication
import Millpond.Restart.Record

set_option autoImplicit false

/-! # At least once across restarts

A commit of offsets is safe when what was written before it is in the table by then. A flush may be
answered with the receipt of a request that an earlier process of the pod made for the same offset
ranges. Both processes read one log in order, so that request holds the rows of the flush, except those
that the earlier process had counted away. -/

namespace Millpond.Restart

open Prog
open Main (Msg Offsets LoopConfig KeepReason)
open Hoglake (Payload SinkConfig Identity)

/-! ## The property -/

/-- An applied commit registers an object that holds the row. -/
def Published (w : Hoglake.World Msg) (m : Msg) : Prop :=
  ∃ entry ∈ w.net.server.ledger.entries, ∃ o ∈ w.objects,
    o.1 ∈ entry.2.request.uris ∧ m ∈ o.2

instance (w : Hoglake.World Msg) (m : Msg) : Decidable (Published w m) := by
  unfold Published
  infer_instance

variable {E V : Type}

/-- When offsets are handed to `kafka.commit`, `Safe` holds of the trace and the world of that moment
    and of every record below them that the process consumed and its filters kept. -/
def CommitsSafely (Safe : List Main.Event → Hoglake.World Msg → Msg → Prop)
    (s : Main.St (State E V)) : Prop :=
  ∀ before offsets after, s.trace = before ++ .commit offsets :: after →
    ∃ world, s.world.commits[before.countP isCommit]? = some world ∧
      ∀ key next, (key, next) ∈ offsets → ∀ m ∈ Main.consumed before, m.isRecord = true →
        m.key = key → m.offset < next → ¬ Main.SkippedIn before m → Safe before world m

/-- **At least once**: such a record is in the table. -/
def AtLeastOnce (s : Main.St (State E V)) : Prop :=
  CommitsSafely (fun _ world m => Published world m) s

variable (pod : Pod E V)

/-- The batch has no column with a writable name: it is skipped and its rows are counted. -/
def Pod.skipsWhole (batch : Main.Table) : Prop :=
  .unsafeBatch (pod.batch batch).numRows ∈ Hoglake.unwritableTallies (pod.batch batch)

/-- The record is in the table, or its whole batch was counted as unwritable. -/
def Pod.AccountsFor (s : Main.St (State E V)) : Prop :=
  CommitsSafely (fun before world m => Published world m ∨
    ∃ batch count, .wrote batch count ∈ before ∧ m ∈ batch ∧ pod.skipsWhole batch) s

/-! ## What the processes of a pod rely on -/

/-- An ordered log whose topics have names without separators. -/
structure KafkaLog (log : Main.Key → List Msg) : Prop extends Main.OrderedLog log where
  topics : ∀ key, ∀ m ∈ log key, ':' ∉ m.topic.toList ∧ '\n' ∉ m.topic.toList

/-- There is one log, and each process is given the records of a partition in order from the committed
    offset on. -/
structure Pod.Redelivers (log : Main.Key → List Msg) (lives : List (Lifetime E V)) : Prop where
  kafka : KafkaLog log
  inOrder : ∀ life ∈ lives, Main.ReadsInOrder log life.start.broker (pod.live life).trace

/-- The process made the request. -/
def Pod.Makes (life : Lifetime E V) (request : Payload) : Prop :=
  ¬ life.start.sink.world.net.Requests request ∧ (pod.live life).world.sink.world.net.Requests request

/-- A flush of the later process is answered with the receipt of a request that the earlier one made,
    and has a row that the earlier one had counted as skipped. -/
def Pod.Misleads (earlier later : Lifetime E V) : Prop :=
  ∃ call ∈ (pod.live later).world.writes, ∃ request, pod.Makes earlier request ∧
    Hoglake.AnsweredBy pod.sink pod.backend call.1 call.2 request ∧
    ∃ m ∈ call.1.batch.rows, Main.SkippedIn (pod.live earlier).trace m

/-- No flush of these processes is answered with the receipt of a request that was in the world before
    them or that another writer makes. -/
def Pod.KeepsToItself (world : Hoglake.World Msg) (lives : List (Lifetime E V)) : Prop :=
  ∀ life ∈ lives, ∀ call ∈ (pod.live life).world.writes, ∀ request,
    world.net.Requests request ∨ world.Others request →
      ¬ Hoglake.AnsweredBy pod.sink pod.backend call.1 call.2 request

variable {pod}

/-! ## What an answer is worth -/

theorem published_of_covers {w : Hoglake.World Msg} {c : Hoglake.Commit} {key : Hoglake.Key}
    {objects : List (Hoglake.Uri × List Msg)} {rows : List Msg}
    (hc : w.net.server.ledger.lookup key = some c) (hobjects : ∀ o ∈ objects, o ∈ w.objects)
    (h : c.request.Covers objects rows) : ∀ m ∈ rows, Published w m := by
  intro m hm
  obtain ⟨o, ho, huri, hrow⟩ := h m hm
  exact ⟨(key, c), Ledger.lookup_eq_some.1 hc, o, hobjects o ho, huri, hrow⟩

/-- Only a batch with rows and no writable name is skipped whole. -/
theorem skipsWhole_of_isSkipped {batch : Main.Table} {m : Msg}
    (h : Hoglake.isSkipped (pod.batch batch) = true) (hm : m ∈ batch) : pod.skipsWhole batch := by
  have hrows : (pod.batch batch).rows.isEmpty = false := by
    rw [pod.batch_rows]
    exact List.isEmpty_eq_false_iff.2 (List.ne_nil_of_mem hm)
  unfold Hoglake.isSkipped at h
  rw [hrows, Bool.or_false] at h
  unfold Pod.skipsWhole Hoglake.unwritableTallies
  rw [if_pos h]
  exact List.mem_append_left _ List.mem_cons_self

variable {log : Main.Key → List Msg} {broker broker' : Main.Key → ℕ} {trace trace' : List Main.Event}

theorem plainTopics (hlog : KafkaLog log) (horder : Main.ReadsInOrder log broker trace) {batch : Main.Table}
    {offsets : Offsets} (h : Main.FromWindow trace batch offsets) :
    Hoglake.PlainTopics (offsets.insertionSort (Main.offsetLe · ·)) := by
  intro entry hentry
  obtain ⟨m, hm, hkey⟩ := h.partition ((List.perm_insertionSort _ _).mem_iff.1 hentry)
  rw [← show m.topic = entry.1.1 from congrArg Prod.fst hkey]
  exact hlog.topics m.key m (horder.mem hm)

/-- **A request made for the same ranges has the same records**: it holds the rows of a flush that it
    answers, except those that its own process counted. -/
theorem Pod.Answered.published {w : Hoglake.World Msg} {objects : List (Hoglake.Uri × List Msg)}
    {batch : Main.Table} {call : Hoglake.Flush Msg V × Hoglake.St Msg} {c : Hoglake.Commit}
    {flush' : Hoglake.Flush Msg V} (hanswered : pod.Answered w batch call c)
    (hmade : c.request.MadeFor pod.sink objects flush') (hobjects : ∀ o ∈ objects, o ∈ w.objects)
    (hlog : KafkaLog log) (h : pod.Explains trace call.1) (h' : pod.Explains trace' flush')
    (horder : Main.ReadsInOrder log broker trace) (horder' : Main.ReadsInOrder log broker' trace') :
    ∀ m ∈ batch, Published w m ∨ Main.SkippedIn trace' m := by
  intro m hm
  obtain ⟨batch₁, offsets, hbatch, hid, hfrom⟩ := h
  obtain ⟨batch', offsets', hbatch', hid', hfrom'⟩ := h'
  obtain ⟨uuid, identity, hidentity, hkey⟩ := hanswered.key
  obtain rfl : offsets.insertionSort (Main.offsetLe · ·) = identity :=
    Option.some.inj (hid.symm.trans hidentity)
  -- equal keys are keys of equal names, and a name tells the ranges it was made of
  have hname := Hoglake.Key.uuid5.inj (hkey.symm.trans (hmade.key _ hid'))
  have hperm := Hoglake.flushName_inj (plainTopics hlog horder hfrom) (plainTopics hlog horder' hfrom')
    hname
  have hranges : offsets.Perm offsets' :=
    (List.perm_insertionSort _ _).symm.trans (hperm.trans (List.perm_insertionSort _ _))
  have hrows : batch₁ = batch := by
    have heq := congrArg (·.rows) (hbatch.symm.trans hanswered.batch_eq)
    simpa [pod.batch_rows] using heq
  refine (hfrom.same hlog.toOrderedLog hfrom' hranges horder horder' (hrows ▸ hm)).imp (fun hin => ?_) id
  refine published_of_covers hanswered.applied hobjects hmade.covers m ?_
  rw [hbatch', pod.batch_rows]
  exact hin

/-! ## One process -/

variable {start w : Hoglake.World Msg} {writes : List (Hoglake.Flush Msg V × Hoglake.St Msg)}

/-- What a process wrote is in the table, if the requests it found there and took for its own hold its
    rows and it took no other writer's for them. -/
theorem Pod.Recorded.published (h : pod.Recorded start trace writes w) (hlog : KafkaLog log)
    (horder : Main.ReadsInOrder log broker trace)
    (hfound : ∀ batch, ∀ call ∈ writes, ∀ c, pod.Answered w batch call c →
      start.net.Requests c.request → ∀ m ∈ batch, Published w m)
    (hothers : ∀ batch, ∀ call ∈ writes, ∀ c, pod.Answered w batch call c → ¬ start.Others c.request)
    {batch : Main.Table} {count : ℕ} (hwrote : .wrote batch count ∈ trace) {m : Msg} (hm : m ∈ batch) :
    Published w m ∨ pod.skipsWhole batch ∨ Main.SkippedIn trace m := by
  rcases h.wrote batch count hwrote with hskip | ⟨call, hcall, c, hanswered⟩
  · exact Or.inr (Or.inl (skipsWhole_of_isSkipped hskip hm))
  · rcases h.requests c.request (Or.inl ⟨_, c, hanswered.applied, rfl⟩) with hearlier | hforeign | hown
    · exact Or.inl (hfound batch call hcall c hanswered hearlier m hm)
    · exact absurd hforeign (hothers batch call hcall c hanswered)
    · obtain ⟨flush, ⟨s, hflush⟩, hmade⟩ := hown
      have hpublished := hanswered.published hmade (fun _ ho => ho) hlog (h.calls call hcall)
        (h.calls _ hflush) horder horder m hm
      exact hpublished.imp id Or.inr

/-! ## One process after another -/

variable (pod log) in
/-- A process that came before: its record, and the order it read in. -/
structure Pod.Known (world₀ : Hoglake.World Msg) (life : Lifetime E V) : Prop where
  records : pod.Records life.start.sink.world (pod.live life).trace (pod.live life).world
  turns : life.start.sink.world.turns = world₀.turns
  inOrder : Main.ReadsInOrder log life.start.broker (pod.live life).trace

variable (pod log) in
/-- The world `world` that these processes left behind, one after another, from `world₀` on. -/
structure Pod.Leaves (world₀ : Hoglake.World Msg) (earlier : List (Lifetime E V))
    (world : Hoglake.World Msg) : Prop where
  turns : world.turns = world₀.turns
  known : ∀ life ∈ earlier, pod.Known log world₀ life
  objects : ∀ life ∈ earlier, ∀ o ∈ (pod.live life).world.sink.world.objects, o ∈ world.objects
  requests : ∀ request, world.net.Requests request →
    world₀.net.Requests request ∨ ∃ life ∈ earlier, pod.Makes life request

variable {world₀ world : Hoglake.World Msg} {earlier : List (Lifetime E V)} {life : Lifetime E V}

/-- One process more. -/
theorem Pod.Leaves.live (h : pod.Leaves log world₀ earlier life.start.sink.world)
    (hknown : pod.Known log world₀ life) :
    pod.Leaves log world₀ (earlier ++ [life]) (withoutClient (pod.live life).world.sink.world) := by
  have hnow := hknown.records.now
  refine ⟨hnow.turns.trans hknown.turns, fun life' hlife => ?_, fun life' hlife o ho => ?_,
    fun request hr => ?_⟩
  · rcases List.mem_append.1 hlife with hold | hnew
    · exact h.known life' hold
    · exact List.mem_singleton.1 hnew ▸ hknown
  · rcases List.mem_append.1 hlife with hold | hnew
    · exact hnow.grows.objects o (h.objects life' hold o ho)
    · exact List.mem_singleton.1 hnew ▸ ho
  · by_cases hstart : life.start.sink.world.net.Requests request
    · refine (h.requests request hstart).imp id ?_
      rintro ⟨life', hlife, hmakes⟩
      exact ⟨life', List.mem_append_left _ hlife, hmakes⟩
    · exact Or.inr ⟨life, List.mem_append_right _ List.mem_cons_self, hstart, hr⟩

/-- **An earlier process's request holds the rows that it answers for**, unless it misleads. -/
theorem Pod.Leaves.published (h : pod.Leaves log world₀ earlier life.start.sink.world)
    (hlog : KafkaLog log) (horder : Main.ReadsInOrder log broker trace)
    (hrecorded : pod.Recorded life.start.sink.world trace writes w)
    (hsub : ∀ call ∈ writes, call ∈ (pod.live life).world.writes)
    (halone : pod.KeepsToItself world₀ [life]) (hfaithful : ∀ before ∈ earlier, ¬ pod.Misleads before life)
    {batch : Main.Table} {call : Hoglake.Flush Msg V × Hoglake.St Msg} {c : Hoglake.Commit}
    (hcall : call ∈ writes) (hanswered : pod.Answered w batch call c)
    (hfound : life.start.sink.world.net.Requests c.request) : ∀ m ∈ batch, Published w m := by
  have hforeign := halone life List.mem_cons_self call (hsub call hcall) c.request
  -- the request is as old as the pod, or one of the processes before made it
  rcases h.requests c.request hfound with hfirst | ⟨before, hbefore, hmakes⟩
  · exact absurd hanswered.answered (hforeign (Or.inl hfirst))
  · have hknown := h.known before hbefore
    rcases hknown.records.now.requests c.request hmakes.2 with hold | ⟨n, foreign, hmove⟩ | hown
    · exact absurd hold hmakes.1
    · exact absurd hanswered.answered (hforeign (Or.inr ⟨n, foreign, hknown.turns ▸ hmove⟩))
    · obtain ⟨flush, ⟨s, hflush⟩, hmade⟩ := hown
      intro m hm
      have hobjects : ∀ o ∈ (pod.live before).world.sink.world.objects, o ∈ w.objects :=
        fun o ho => hrecorded.grows.objects o (h.objects before hbefore o ho)
      have hpublished := hanswered.published hmade hobjects hlog (hrecorded.calls call hcall)
        (hknown.records.now.calls _ hflush) horder hknown.inOrder m hm
      refine hpublished.resolve_right fun hskipped => ?_
      refine hfaithful before hbefore ⟨call, hsub call hcall, c.request, hmakes, hanswered.answered, m, ?_,
        hskipped⟩
      rw [hanswered.batch_eq, pod.batch_rows]
      exact hm

/-- A process accounts for what it commits, if none of those before it misleads it. -/
theorem Pod.Leaves.accountsFor (h : pod.Leaves log world₀ earlier life.start.sink.world)
    (hlog : KafkaLog log) (hknown : pod.Known log world₀ life)
    (hstages : ¬ Main.LosesBatch pod.runtime pod.loop life.start life.iterations)
    (halone : pod.KeepsToItself world₀ [life])
    (hfaithful : ∀ before ∈ earlier, ¬ pod.Misleads before life) : pod.AccountsFor (pod.live life) := by
  have hsafe : Main.NoLoss (pod.live life).trace :=
    Main.noLoss_of_not_losesBatch pod.runtime pod.loop life.start life.iterations hstages
  intro before offsets after heq
  obtain ⟨world, writes, hworld, hsub, hrecorded⟩ := hknown.records.past before offsets after heq
  refine ⟨world, hworld, fun key next hnext m hm hrecord hkey hlt hkept => ?_⟩
  have horder : Main.ReadsInOrder log life.start.broker before := (heq ▸ hknown.inOrder).of_append
  -- of the loop alone: what is below the offsets was written or counted
  rcases hsafe before offsets after heq key next hnext m hm hrecord hkey hlt with hwrote | hskipped
  · obtain ⟨batch, count, hwrote, hmem⟩ := hwrote
    have hpublished := hrecorded.published hlog horder
      (fun batch call hcall c hanswered hfound =>
        h.published hlog horder hrecorded hsub halone hfaithful hcall hanswered hfound)
      (fun batch call hcall c hanswered ⟨n, foreign, hmove⟩ =>
        halone life List.mem_cons_self call (hsub call hcall) c.request
          (Or.inr ⟨n, foreign, hknown.turns ▸ hmove⟩) hanswered.answered) hwrote hmem
    rcases hpublished with hpub | hskip | hskipped
    · exact Or.inl hpub
    · exact Or.inr ⟨batch, count, hwrote, hmem, hskip⟩
    · exact absurd hskipped hkept
  · exact absurd hskipped hkept

/-- All processes of a pod, after those that came before. -/
theorem lifetimes_accountsFor_from (hlog : KafkaLog log) (lives : List (E × ℕ)) :
    ∀ {broker : Main.Key → ℕ} {world : Hoglake.World Msg} {earlier : List (Lifetime E V)},
      pod.Leaves log world₀ earlier world →
      (∀ life ∈ pod.lifetimes broker world lives,
        Main.ReadsInOrder log life.start.broker (pod.live life).trace) →
      (∀ life ∈ pod.lifetimes broker world lives,
        ¬ Main.LosesBatch pod.runtime pod.loop life.start life.iterations) →
      pod.KeepsToItself world₀ (pod.lifetimes broker world lives) →
      (earlier ++ pod.lifetimes broker world lives).Pairwise (fun life later => ¬ pod.Misleads life later) →
        ∀ life ∈ pod.lifetimes broker world lives, pod.AccountsFor (pod.live life) := by
  induction lives with
  | nil => exact fun _ _ _ _ _ _ hlife => absurd hlife List.not_mem_nil
  | cons first rest ih =>
      intro broker world earlier h horder hstages halone hfaithful
      obtain ⟨env, iterations⟩ := first
      -- the first process leaves its world to the rest, and is then one of those before
      let life : Lifetime E V := ⟨.boot env broker world, iterations⟩
      have hmem : life ∈ pod.lifetimes broker world ((env, iterations) :: rest) := List.mem_cons_self
      have hknown : pod.Known log world₀ life :=
        ⟨live_records life rfl (hstages life hmem), h.turns, horder life hmem⟩
      have hbefore : ∀ before ∈ earlier, ¬ pod.Misleads before life :=
        fun before hin => (List.pairwise_append.1 hfaithful).2.2 before hin life hmem
      intro life' hlife
      rcases List.mem_cons.1 hlife with rfl | hrest
      · exact h.accountsFor hlog hknown (hstages life hmem)
          (fun one hone => halone one (List.mem_singleton.1 hone ▸ hmem)) hbefore
      · rw [Pod.lifetimes, ← List.singleton_append, ← List.append_assoc] at hfaithful
        exact ih (h.live hknown) (fun one hone => horder one (List.mem_cons_of_mem _ hone))
          (fun one hone => hstages one (List.mem_cons_of_mem _ hone))
          (fun one hone => halone one (List.mem_cons_of_mem _ hone)) hfaithful life' hrest

/-- **At least once across restarts.** In every sequence of lifetimes of a pod that read one log in
    order from the committed offsets, in which no stage raises with rows pending, no flush is answered
    with another writer's receipt, and no flush is answered with the receipt of an earlier process that
    had counted one of its rows as skipped: whenever a process commits offsets, every record below them
    that it consumed and kept is in the table, or was counted with a batch that has no writable
    column. -/
theorem lifetimes_accountsFor (pod : Pod E V) (log : Main.Key → List Msg) (broker : Main.Key → ℕ)
    (world : Hoglake.World Msg) (lives : List (E × ℕ))
    (hredelivers : pod.Redelivers log (pod.lifetimes broker world lives))
    (hstages : ∀ life ∈ pod.lifetimes broker world lives,
      ¬ Main.LosesBatch pod.runtime pod.loop life.start life.iterations)
    (halone : pod.KeepsToItself world (pod.lifetimes broker world lives))
    (hfaithful : (pod.lifetimes broker world lives).Pairwise fun earlier later =>
      ¬ pod.Misleads earlier later) :
    ∀ life ∈ pod.lifetimes broker world lives, pod.AccountsFor (pod.live life) := by
  have hnone : pod.Leaves log world [] world :=
    ⟨rfl, fun _ h => absurd h List.not_mem_nil, fun _ h => absurd h List.not_mem_nil, fun _ h => Or.inl h⟩
  exact lifetimes_accountsFor_from hredelivers.kafka lives hnone hredelivers.inOrder hstages halone
    (by simpa using hfaithful)

/-! ## An include set that changes -/

/-- The processes of a pod in its ordinary surroundings: conversion never raises, and the log is
    delivered again from the committed offsets. -/
structure Pod.Ordinary (pod : Pod E V) (log : Main.Key → List Msg) (lives : List (Lifetime E V)) :
    Prop where
  converts : ∀ env e, (pod.attempt .convert env).outcome ≠ .raised e
  redelivers : pod.Redelivers log lives

/-- The polls to come, and the values the filter keeps. -/
structure Feed where
  polls : List (List Msg)
  included : List (List UInt8)

/-- A record of partition 0 at an offset, with one byte. -/
def record (offset : ℕ) (byte : UInt8) : Msg := ⟨"events", 0, offset, false, some [byte]⟩

/-- An answer that takes no time. -/
def atOnce {α : Type} (feed : Feed) (a : α) : Reply Feed α := ⟨.ok a, feed, 0, Rat.le_refl⟩

theorem demo_timeoutS_pos : (0 : ℚ) < 30 := by decide

theorem demo_withinBudget : Config.hoglakeWorstCaseFlushS 1 30 ≤ Config.livenessBudgetS := by
  norm_num [Config.hoglakeWorstCaseFlushS, Config.prepareAllowanceS, Config.livenessBudgetS]

/-- One field, by this name, and a flush after every poll that leaves rows. -/
def demoPod (field : String) : Pod Feed ℕ where
  sink := Hoglake.demoCfg
  backend :=
    { cast := fun _ _ v => some v
      transform := fun _ _ _ v => v.map toString
      uuidText := id
      uuidBytes := some
      timestamp := fun _ => 0
      nbytes := fun batch => batch.numRows }
  retry := ⟨1, 30, Nat.one_pos, demo_timeoutS_pos, demo_withinBudget⟩
  loop := ⟨60, 1, 10, true⟩
  hoglake := rfl
  batch := fun table => ⟨table, [⟨field, .of .long, fun m => some m.offset⟩]⟩
  batch_rows := fun _ => rfl
  uniform := fun _ feed => (0, feed)
  shutdown := fun feed => feed.polls.isEmpty
  consume := fun _ _ feed => atOnce { feed with polls := feed.polls.tail } (feed.polls.headD [])
  attempt := fun _ feed => atOnce feed ()
  commit := fun _ feed => atOnce feed ()
  takes := fun _ _ => false
  decodes := fun _ => true
  hasKeys := fun _ => true
  keepVerdict := fun feed _ m => if m.value.any (· ∈ feed.included) then none else some .excluded
  dropVerdict := fun _ _ => false
  sorted := id
  sorted_perm := List.Perm.refl

/-- One table; the first process dies in its commit, which the server applies. -/
def demoWorld : Hoglake.World Msg where
  net := ⟨Hoglake.demoServer ⟨Hoglake.demoColumns, [], []⟩, [], 0⟩
  objects := []
  torn := []
  nextUri := 0
  nextUuid4 := 0
  handle := ⟨⟨0, 0, ⟨[], [], []⟩⟩, none⟩
  turns := fun n => Hoglake.demoTurn [] (if n = 4 then .killed .now else .answered)
  turn := 0

/-- Offsets 0 and 1 are polled together, under this include set. -/
def demoFeed (included : List (List UInt8)) : Feed := ⟨[[record 0 1, record 1 2]], included⟩

/-- The log of the one partition. -/
def demoLog (key : Main.Key) : List Msg :=
  if key = ("events", 0) then [record 0 1, record 1 2] else []

def skips (m : Msg) : Main.Event → Bool
  | .skipped msgs _ => decide (m ∈ msgs)
  | _ => false

instance (events : List Main.Event) (m : Msg) : Decidable (Main.SkippedIn events m) :=
  decidable_of_iff (∃ e ∈ events, skips m e = true) (by
    constructor
    · rintro ⟨e, he, hskip⟩
      cases e with
      | skipped msgs reason => exact ⟨msgs, reason, he, by simpa [skips] using hskip⟩
      | _ => exact absurd hskip (by simp [skips])
    · rintro ⟨msgs, reason, he, hm⟩
      exact ⟨_, he, by simpa [skips] using hm⟩)

/-- The last event commits over the record, which is in the table at no commit. -/
def Overlooks (s : Main.St (State E V)) (m : Msg) : Prop :=
  s.trace = s.trace.dropLast ++ [.commit [(m.key, m.offset + 1)]] ∧ m.isRecord = true ∧
    m ∈ Main.consumed s.trace.dropLast ∧ ¬ Main.SkippedIn s.trace.dropLast m ∧
    ∀ world ∈ s.world.commits, ¬ Published world m

instance (s : Main.St (State E V)) (m : Msg) : Decidable (Overlooks s m) := by
  unfold Overlooks
  infer_instance

theorem Overlooks.not_atLeastOnce {s : Main.St (State E V)} {m : Msg} (h : Overlooks s m) :
    ¬ AtLeastOnce s := by
  obtain ⟨htrace, hrecord, hconsumed, hkept, hlost⟩ := h
  intro hsafe
  obtain ⟨world, hworld, hpublished⟩ := hsafe _ _ [] htrace
  have hmem := List.mem_of_getElem? hworld
  exact hlost world hmem (hpublished m.key (m.offset + 1) List.mem_cons_self m hconsumed hrecord rfl
    (Nat.lt_succ_self _) hkept)

theorem demoLog_kafka : KafkaLog demoLog := by
  refine ⟨⟨fun key m hm => ?_, fun key => ?_⟩, fun key m hm => ?_⟩
  all_goals
    by_cases hkey : key = ("events", 0)
    · subst hkey
      first
        | exact (by decide : ∀ m ∈ demoLog ("events", 0), m.key = ("events", 0)) m hm
        | exact (by decide : (demoLog ("events", 0)).Pairwise (·.offset < ·.offset))
        | exact (by decide : ∀ m ∈ demoLog ("events", 0), ':' ∉ m.topic.toList ∧ '\n' ∉ m.topic.toList) m hm
    · simp_all [demoLog]

/-- Redelivery, for processes that all poll the whole log. -/
theorem demo_redelivers {field : String} {lives : List (Lifetime Feed ℕ)}
    (hconsumed : ∀ life ∈ lives,
      Main.consumed ((demoPod field).live life).trace = [record 0 1, record 1 2])
    (hbroker : ∀ life ∈ lives, life.start.broker ("events", 0) = 0) :
    (demoPod field).Redelivers demoLog lives := by
  refine ⟨demoLog_kafka, fun life hlife key => ?_⟩
  rw [hconsumed life hlife]
  by_cases hkey : key = ("events", 0)
  · subst hkey
    rw [hbroker life hlife]
    decide
  · have hne : ¬ ("events", 0) = key := fun h => hkey h.symm
    simp [record, Main.Msg.key, hne]

theorem demo_converts (field : String) (env : Feed) (e : Hoglake.Raised) :
    ((demoPod field).attempt .convert env).outcome ≠ .raised e := by simp [demoPod, atOnce]

/-- The lives of the demo pod, one for each include set. -/
def demoLives (field : String) (included : List (List (List UInt8))) : List (Lifetime Feed ℕ) :=
  (demoPod field).lifetimes (fun _ => 0) demoWorld (included.map fun set => (demoFeed set, 1))

/-- Nobody else writes into the demo world, and it starts empty. -/
theorem demoWorld_quiet {request : Payload} :
    ¬ (demoWorld.net.Requests request ∨ demoWorld.Others request) := by
  rintro ((⟨key, c, hc, -⟩ | hflight) | ⟨n, foreign, hmove⟩)
  · exact absurd hc (by simp [demoWorld, Hoglake.demoServer, Ledger.lookup, Ledger.empty])
  · exact absurd hflight List.not_mem_nil
  · exact absurd hmove List.not_mem_nil

/-- Under one include set the second process sends what the first one had applied. -/
theorem lifetimes_accountsFor_demo :
    (demoLives "v" [[[1], [2]], [[1], [2]]]).length = 2 ∧
      ∀ life ∈ demoLives "v" [[[1], [2]], [[1], [2]]],
        (demoPod "v").AccountsFor ((demoPod "v").live life) := by
  have hnone : ∀ life ∈ demoLives "v" [[[1], [2]], [[1], [2]]],
      (Main.loopFailure (demoPod "v").runtime (demoPod "v").loop life.start life.iterations).isNone
        = true := by decide +kernel
  have hkept : ∀ life ∈ demoLives "v" [[[1], [2]], [[1], [2]]],
      ∀ e ∈ ((demoPod "v").live life).trace, ∀ m ∈ [record 0 1, record 1 2], skips m e = false := by
    decide +kernel
  have hrows : ∀ life ∈ demoLives "v" [[[1], [2]], [[1], [2]]],
      ∀ call ∈ ((demoPod "v").live life).world.writes,
        ∀ m ∈ call.1.batch.rows, m ∈ [record 0 1, record 1 2] := by decide +kernel
  refine ⟨rfl, lifetimes_accountsFor (demoPod "v") demoLog (fun _ => 0) demoWorld _
    (demo_redelivers (by decide +kernel) (by decide +kernel)) (fun life hlife hloses => ?_)
    (fun _ _ _ _ _ hforeign => absurd hforeign demoWorld_quiet)
    (List.pairwise_iff_forall_sublist.2 fun {earlier later} hsub hmisleads => ?_)⟩
  · obtain ⟨failure, s, hfail, -⟩ := hloses
    have hisNone := hnone life hlife
    rw [hfail] at hisNone
    exact absurd hisNone (by simp)
  · have hboth := hsub.subset
    obtain ⟨call, hcall, request, -, -, m, hm, msgs, reason, hskip, hmem⟩ := hmisleads
    have hrow := hrows later (hboth (by simp)) call hcall m hm
    have hnot := hkept earlier (hboth (by simp)) _ hskip m hrow
    simp [skips, hmem] at hnot

/-- Two ways to lose the record at offset 1: the first process dies right after its commit of both
    offsets under an include set that keeps the record at offset 0 only, and the second one keeps
    both; or no column has a writable name. -/
theorem overlooked :
    ((demoPod "v").Ordinary demoLog (demoLives "v" [[[1]], [[1], [2]]]) ∧
      ¬ ∀ life ∈ demoLives "v" [[[1]], [[1], [2]]], AtLeastOnce ((demoPod "v").live life)) ∧
    ((demoPod "1v").Ordinary demoLog (demoLives "1v" [[[1], [2]]]) ∧
      ¬ ∀ life ∈ demoLives "1v" [[[1], [2]]], AtLeastOnce ((demoPod "1v").live life)) := by
  have hwidened : ∃ life ∈ demoLives "v" [[[1]], [[1], [2]]],
      Overlooks ((demoPod "v").live life) (record 1 2) := by decide +kernel
  have hpoisoned : ∃ life ∈ demoLives "1v" [[[1], [2]]],
      Overlooks ((demoPod "1v").live life) (record 1 2) := by decide +kernel
  refine ⟨⟨⟨demo_converts "v", demo_redelivers (by decide +kernel) (by decide +kernel)⟩, fun hall => ?_⟩,
    ⟨demo_converts "1v", demo_redelivers (by decide +kernel) (by decide +kernel)⟩, fun hall => ?_⟩
  · obtain ⟨life, hlife, hlost⟩ := hwidened
    exact hlost.not_atLeastOnce (hall life hlife)
  · obtain ⟨life, hlife, hlost⟩ := hpoisoned
    exact hlost.not_atLeastOnce (hall life hlife)

end Millpond.Restart
