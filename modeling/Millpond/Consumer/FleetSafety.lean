import Millpond.Consumer.Fleet

set_option autoImplicit false

/-! # The fleet loses nothing

A committed offset has nothing left to do before it: each record that the broker still has there was in a
returned write, was counted as skipped, or lies where a reset to `latest` passed. The invariant also says
so of where every pod fetches, up to the records it has in hand. -/

namespace Millpond.Consumer

open Main (Msg Key Event)
open PartitionLog (Reset Settled)

variable {topic : String} {reset : Reset} {f f' : Fleet} {pod : Pod} {i : ℕ}

/-! ## The invariant -/

/-- The record needs nothing more, or the message is none. -/
def Fleet.Done (f : Fleet) (m : Msg) : Prop :=
  m.isRecord = true → m ∈ f.written ∨ m ∈ f.skipped ∨ m ∈ f.waived

/-- The offsets a starting pod has read lie before those of the broker now. -/
def Phase.Bounded (topic : String) (b : PartitionLog Msg) : Phase → Prop
  | .sawStarts _ earliest => ∀ lows, earliest = some lows → ∀ p low, lows p = some low →
      low ≤ b.start (topic, p)
  | .sawEnds replies => (∀ lows, replies.earliest = some lows → ∀ p low, lows p = some low →
      low ≤ b.start (topic, p)) ∧ ∀ highs, replies.latest = some highs → ∀ p high,
        highs p = some high → high ≤ b.next (topic, p)
  | _ => True

structure Pod.Sound (topic : String) (f : Fleet) (pod : Pod) : Prop where
  noLoss : Main.NoLoss (pod.past ++ pod.future)
  taken : Main.CommitsTaken (pod.past ++ pod.future)
  covered : ∀ m, Main.Covered pod.past m → m ∈ f.written ∨ m ∈ f.skipped
  seen : ∀ m ∈ Main.consumed pod.past, ∃ n, pod.position m.key = some n ∧ m.offset < n
  settled : ∀ k n, pod.position k = some n →
    Settled f.broker (fun m => f.Done m ∨ m ∈ Main.consumed pod.past) k n
  bounded : pod.phase.Bounded topic f.broker

structure Fleet.Sound (topic : String) (f : Fleet) : Prop where
  committed : ∀ k n, f.committed k = some n → Settled f.broker f.Done k n
  pods : ∀ i pod, f.pods i = some pod → pod.Sound topic f

/-! ## What is kept -/

/-- Nothing is taken back, on the same broker. -/
structure Fleet.Grows (f f' : Fleet) : Prop where
  broker : f'.broker = f.broker
  written : ∀ m ∈ f.written, m ∈ f'.written
  skipped : ∀ m ∈ f.skipped, m ∈ f'.skipped
  waived : ∀ m ∈ f.waived, m ∈ f'.waived

theorem Fleet.Grows.done {m : Msg} (h : f.Grows f') (hdone : f.Done m) : f'.Done m :=
  fun hrec => (hdone hrec).imp (h.written m) (Or.imp (h.skipped m) (h.waived m))

theorem Fleet.Grows.settled {k : Key} {n : ℕ} (h : f.Grows f') (hs : Settled f.broker f.Done k n) :
    Settled f'.broker f'.Done k n := by
  rw [h.broker]
  exact hs.mono fun m _ => h.done

theorem Pod.Sound.grows (hp : pod.Sound topic f) (h : f.Grows f') : pod.Sound topic f' where
  noLoss := hp.noLoss
  taken := hp.taken
  covered m hm := (hp.covered m hm).imp (h.written m) (h.skipped m)
  seen := hp.seen
  settled k n hn := by
    rw [h.broker]
    exact (hp.settled k n hn).mono fun m _ => Or.imp h.done id
  bounded := by
    rw [h.broker]
    exact hp.bounded

/-- A step of one pod that takes nothing back. -/
theorem Fleet.Sound.withPod (hf : f.Sound topic) (h : f.Grows f')
    (hpods : f'.pods = Function.update f.pods i (some pod)) (hpod : pod.Sound topic f')
    (hcommitted : ∀ k n, f'.committed k = some n → f.committed k = some n ∨
      Settled f'.broker f'.Done k n) : f'.Sound topic where
  committed k n hn := (hcommitted k n hn).elim (fun hold => h.settled (hf.committed k n hold)) id
  pods i' pod' hpod' := by
    rw [hpods] at hpod'
    by_cases heq : i' = i
    · subst heq
      rw [Function.update_self] at hpod'
      cases hpod'
      exact hpod
    · rw [Function.update_of_ne heq] at hpod'
      exact (hf.pods i' pod' hpod').grows h

theorem grows_withPod (f : Fleet) (i : ℕ) (pod : Pod) : f.Grows (f.withPod i pod) :=
  ⟨rfl, fun _ h => h, fun _ h => h, fun _ h => h⟩

/-- A pod that only goes to its next phase. -/
theorem Pod.Sound.phase (hp : pod.Sound topic f) {phase : Phase} (h : phase.Bounded topic f.broker) :
    Pod.Sound topic f { pod with phase := phase } :=
  ⟨hp.noLoss, hp.taken, hp.covered, hp.seen, hp.settled, h⟩

theorem Fleet.Sound.enter (hf : f.Sound topic) (hpod : f.pods i = some pod) {phase : Phase}
    (h : phase.Bounded topic f.broker) : (f.withPod i { pod with phase := phase }).Sound topic := by
  have hgrows := grows_withPod f i { pod with phase := phase }
  exact hf.withPod hgrows rfl (((hf.pods i pod hpod).grows hgrows).phase h) fun k n hn => Or.inl hn

theorem Pod.sound_new {events : List Event} (h : RunsLoop events) (partitionCount replicaCount ordinal : ℕ) :
    (Pod.new partitionCount replicaCount ordinal events).Sound topic f := by
  obtain ⟨ε, W, rt, cfg, w, n, hloses, rfl⟩ := h
  refine ⟨Main.noLoss_of_not_losesBatch rt cfg w n hloses, Main.runMain_commitsTaken rt cfg w n hloses,
    fun m hm => ?_, fun m hm => ?_, fun k n hn => ?_, trivial⟩
  · rcases hm with ⟨batch, count, hw, -⟩ | ⟨msgs, reason, hskip, -⟩
    · exact absurd hw List.not_mem_nil
    · exact absurd hskip List.not_mem_nil
  · exact absurd hm List.not_mem_nil
  · cases hn

/-! ## The broker -/

theorem Phase.Bounded.moves {b b' : PartitionLog Msg} {phase : Phase} (h : phase.Bounded topic b)
    (hmoves : b.Moves b') : phase.Bounded topic b' := by
  have hstart : ∀ {low : ℤ} {p : ℕ}, low ≤ b.start (topic, p) → low ≤ b'.start (topic, p) :=
    fun hle => hle.trans (by exact_mod_cast hmoves.start_le _)
  have hnext : ∀ {high : ℤ} {p : ℕ}, high ≤ b.next (topic, p) → high ≤ b'.next (topic, p) :=
    fun hle => hle.trans (by exact_mod_cast hmoves.next_le _)
  cases phase with
  | sawStarts committed earliest => exact fun lows hlows p low hlow => hstart (h lows hlows p low hlow)
  | sawEnds replies =>
      exact ⟨fun lows hlows p low hlow => hstart (h.1 lows hlows p low hlow),
        fun highs hhighs p high hhigh => hnext (h.2 highs hhighs p high hhigh)⟩
  | created => trivial
  | asked committed => trivial
  | running => trivial

theorem Fleet.Sound.moves (hf : f.Sound topic) {b : PartitionLog Msg} (hmoves : f.broker.Moves b) :
    Fleet.Sound topic { f with broker := b } where
  committed k n hn := (hf.committed k n hn).moves hmoves
  pods i pod hpod :=
    have hp := hf.pods i pod hpod
    ⟨hp.noLoss, hp.taken, hp.covered, hp.seen, fun k n hn => (hp.settled k n hn).moves hmoves,
      hp.bounded.moves hmoves⟩

/-! ## Starting -/

theorem tells_le {futures : Futures} {offsets : Key → ℕ} (h : Tells topic futures offsets) :
    ∀ told, futures = some told → ∀ p offset, told p = some offset → offset ≤ offsets (topic, p) :=
  fun told htold p offset hoffset => (h told htold p offset hoffset).le

theorem mem_passedOver {b : PartitionLog Msg} {k : Key} {n : ℕ} {m : Msg} :
    m ∈ passedOver .latest b k n ↔ m ∈ b.retained ∧ m.key = k ∧ m.offset < n := by
  simp [passedOver]

/-- The offset of a reset, read from the broker now or before, with what it passes over. -/
theorem settled_reset (reset : Reset) {b : PartitionLog Msg} {done : Msg → Prop} {k : Key} {n : ℕ}
    (hle : n ≤ match reset with | .earliest => b.start k | .latest => b.next k)
    (hpassed : ∀ m ∈ passedOver reset b k n, done m) : Settled b done k n := by
  cases reset with
  | earliest => exact PartitionLog.settled_of_le_start hle
  | latest => exact ⟨hle, fun m hm hkey hlt => hpassed m (mem_passedOver.2 ⟨hm, hkey, hlt⟩)⟩

theorem Fleet.done_of_waived {m : Msg} (h : m ∈ f.waived) : f.Done m := fun _ => Or.inr (Or.inr h)

/-- Whatever the recovery commits is settled, however old what it read is. -/
theorem settled_recover {replies : StartupReplies} (hbounded : (Phase.sawEnds replies).Bounded topic f.broker)
    (takes : ℕ → Bool) {k : Key} {n : ℕ}
    (hn : (f.recover topic reset replies takes).committed k = some n) : f.committed k = some n ∨
      Settled f.broker (f.recover topic reset replies takes).Done k n := by
  obtain ⟨t, p⟩ := k
  have hstored : afterRecovery topic f.committed (recoverStaleCommittedOffsets reset replies).toRecover
    takes (t, p) = some n := hn
  unfold afterRecovery at hstored
  split at hstored
  · next htopic =>
      obtain ⟨rfl, -⟩ := htopic
      split at hstored
      · next offset hget =>
          cases hstored
          have hmem := mem_of_dictGet hget
          obtain ⟨_, _, _, low, high, -, -, -, -, hwatermark, -, rfl⟩ := exists_of_mem_toRecover hmem
          obtain ⟨-, lows, highs, hlows, hhighs, hlow, hhigh⟩ := mem_queryWatermarks.1 hwatermark
          have hstart := hbounded.1 lows hlows p low hlow
          have hnext := hbounded.2 highs hhighs p high hhigh
          -- the watermarks may be old, but both ends of a log only move on
          refine Or.inr (settled_reset reset ?_ fun m hm => Fleet.done_of_waived ?_)
          · cases reset with
            | earliest => exact Int.toNat_le.2 hstart
            | latest => exact Int.toNat_le.2 hnext
          · exact List.mem_append_right _ (List.mem_flatMap.2 ⟨_, hmem, hm⟩)
      · exact Or.inl hstored
  · exact Or.inl hstored

theorem grows_seek (f : Fleet) (i : ℕ) (pod : Pod) (k : Key) : f.Grows (f.seek reset i pod k) :=
  ⟨rfl, fun _ h => h, fun _ h => h, fun _ h => List.mem_append_left _ h⟩

/-- Where fetching starts is settled: it is the committed offset, or that of a reset. -/
theorem settled_seek (hf : f.Sound topic) (i : ℕ) (pod : Pod) (k : Key) :
    Settled f.broker (f.seek reset i pod k).Done k
      (f.broker.resolve reset k (if (pod.position k).isNone then f.committed k else none)) := by
  rcases f.broker.resolve_cases reset k (if (pod.position k).isNone then f.committed k else none) with
    hstored | ⟨hother, htarget⟩
  · have hcommitted : f.committed k = some (f.broker.resolve reset k
        (if (pod.position k).isNone then f.committed k else none)) := by
      split at hstored
      · next hnone => rw [if_pos hnone]; exact hstored
      · cases hstored
    exact (grows_seek f i pod k).settled (hf.committed k _ hcommitted)
  · refine settled_reset reset ?_ fun m hm => Fleet.done_of_waived ?_
    · rw [htarget]
      cases reset <;> exact le_refl _
    · refine List.mem_append_right _ ?_
      rw [if_neg hother]
      exact hm

/-! ## The messages of a poll -/

theorem fetched_self (position : Key → Option ℕ) (m : Msg) :
    fetched position m m.key = some (max ((position m.key).getD 0) (m.offset + 1)) :=
  Function.update_self _ _ _

theorem fetched_of_ne (position : Key → Option ℕ) {m : Msg} {k : Key} (h : k ≠ m.key) :
    fetched position m k = position k := Function.update_of_ne h _ _

/-- Fetching goes on where it did, or after a message. -/
theorem advance_cases {msgs : List Msg} :
    ∀ {position : Key → Option ℕ} {k : Key} {n : ℕ}, advance msgs position k = some n →
      position k = some n ∨ ∃ m ∈ msgs, m.key = k ∧ n = m.offset + 1 := by
  induction msgs with
  | nil => exact fun h => Or.inl h
  | cons m rest ih =>
      intro position k n h
      have hrest : advance rest (fetched position m) k = some n := h
      rcases ih hrest with hhead | ⟨m', hm', hkey, hn⟩
      · by_cases heq : k = m.key
        · subst heq
          rw [fetched_self] at hhead
          obtain rfl := Option.some.inj hhead
          cases hpos : position m.key with
          | none => exact Or.inr ⟨m, List.mem_cons_self, rfl, by simp⟩
          | some p =>
              rw [Option.getD_some]
              rcases max_choice p (m.offset + 1) with hold | hnew
              · exact Or.inl (by rw [hold])
              · exact Or.inr ⟨m, List.mem_cons_self, rfl, hnew⟩
        · rw [fetched_of_ne position heq] at hhead
          exact Or.inl hhead
      · exact Or.inr ⟨m', List.mem_cons_of_mem _ hm', hkey, hn⟩

/-- Fetching does not go back. -/
theorem le_advance (msgs : List Msg) :
    ∀ {position : Key → Option ℕ} {k : Key} {n : ℕ}, position k = some n →
      ∃ n', advance msgs position k = some n' ∧ n ≤ n' := by
  induction msgs with
  | nil => exact fun h => ⟨_, h, le_refl _⟩
  | cons m rest ih =>
      intro position k n h
      by_cases heq : k = m.key
      · subst heq
        have hhead : fetched position m m.key = some (max n (m.offset + 1)) := by
          rw [fetched_self, h, Option.getD_some]
        obtain ⟨n', hn', hle⟩ := ih hhead
        exact ⟨n', hn', (le_max_left _ _).trans hle⟩
      · have hhead : fetched position m k = some n := (fetched_of_ne position heq).trans h
        exact ih hhead

theorem lt_advance {msgs : List Msg} : ∀ {position : Key → Option ℕ}, ∀ m ∈ msgs,
    ∃ n, advance msgs position m.key = some n ∧ m.offset < n := by
  induction msgs with
  | nil => exact fun _ h => absurd h List.not_mem_nil
  | cons first rest ih =>
      intro position m hm
      rcases List.mem_cons.1 hm with rfl | hrest
      · obtain ⟨n, hn, hle⟩ := le_advance rest (fetched_self position m)
        exact ⟨n, hn, by omega⟩
      · exact ih m hrest

/-- What the pod fetched up to a poll's end is in its hands. -/
theorem Pod.Sound.delivered (hp : pod.Sound topic f) {msgs : List Msg}
    (hdelivers : Delivers f.broker pod msgs) (k : Key) (n : ℕ)
    (hn : advance msgs pod.position k = some n) :
    Settled f.broker (fun m => f.Done m ∨ m ∈ Main.consumed (pod.past ++ [.consumed msgs])) k n := by
  have hold : ∀ p, pod.position k = some p → Settled f.broker
      (fun m => f.Done m ∨ m ∈ Main.consumed (pod.past ++ [.consumed msgs])) k p := by
    intro p hpos
    refine (hp.settled k p hpos).mono fun m _ => Or.imp id fun hin => ?_
    rw [Main.consumed_append]
    exact List.mem_append_left _ hin
  -- fetching stands where it did, or right after a message of this poll
  rcases advance_cases hn with hpos | ⟨m, hm, rfl, rfl⟩
  · exact hold n hpos
  · obtain ⟨p, hpos, hlt, hall⟩ := hdelivers m hm
    refine (hold p hpos).extend hlt fun m' hm' hkey hafter hbefore => ?_
    cases herror : m'.error with
    | true => exact Or.inl fun hrec => by simp [Msg.isRecord, herror] at hrec
    | false =>
        have hin := hall m' hm' herror hkey hafter (Nat.lt_succ_iff.1 hbefore)
        rw [Main.consumed_append]
        exact Or.inr (List.mem_append_right _ (by simpa [Main.consumed] using hin))

/-! ## The events of a pod -/

theorem covered_snoc {past : List Event} {e : Event} {m : Msg} (h : Main.Covered (past ++ [e]) m) :
    Main.Covered past m ∨ (∃ batch count, e = .wrote batch count ∧ m ∈ batch) ∨
      ∃ msgs reason, e = .skipped msgs reason ∧ m ∈ msgs := by
  rcases h with ⟨batch, count, hw, hm⟩ | ⟨msgs, reason, hskip, hm⟩
  · rcases List.mem_append.1 hw with hold | hnew
    · exact Or.inl (Or.inl ⟨batch, count, hold, hm⟩)
    · exact Or.inr (Or.inl ⟨batch, count, (List.mem_singleton.1 hnew).symm, hm⟩)
  · rcases List.mem_append.1 hskip with hold | hnew
    · exact Or.inl (Or.inr ⟨msgs, reason, hold, hm⟩)
    · exact Or.inr (Or.inr ⟨msgs, reason, (List.mem_singleton.1 hnew).symm, hm⟩)

/-- A pod after an event that is no poll's messages. -/
theorem Pod.Sound.quiet (hp : pod.Sound topic f) {e : Event} {rest : List Event}
    (hnext : pod.future = e :: rest) (hconsumed : Main.consumed [e] = [])
    (hcovered : ∀ m, ((∃ batch count, e = .wrote batch count ∧ m ∈ batch) ∨
      ∃ msgs reason, e = .skipped msgs reason ∧ m ∈ msgs) → m ∈ f.written ∨ m ∈ f.skipped) :
    Pod.Sound topic f { pod with past := pod.past ++ [e], future := rest } := by
  have hevents : pod.past ++ [e] ++ rest = pod.past ++ pod.future := by
    rw [hnext, List.append_assoc, List.singleton_append]
  have hsame : Main.consumed (pod.past ++ [e]) = Main.consumed pod.past := by
    rw [Main.consumed_append, hconsumed, List.append_nil]
  refine ⟨?_, ?_, fun m hm => ?_, ?_, ?_, hp.bounded⟩
  · show Main.NoLoss (pod.past ++ [e] ++ rest)
    rw [hevents]
    exact hp.noLoss
  · show Main.CommitsTaken (pod.past ++ [e] ++ rest)
    rw [hevents]
    exact hp.taken
  · exact (covered_snoc hm).elim (hp.covered m) (hcovered m)
  · show ∀ m ∈ Main.consumed (pod.past ++ [e]), _
    rw [hsame]
    exact hp.seen
  · show ∀ k n, _ → Settled f.broker (fun m => f.Done m ∨ m ∈ Main.consumed (pod.past ++ [e])) k n
    rw [hsame]
    exact hp.settled

/-- A pod after the messages of a poll. -/
theorem Pod.Sound.polled (hp : pod.Sound topic f) {msgs : List Msg} {rest : List Event}
    (hnext : pod.future = .consumed msgs :: rest) (hdelivers : Delivers f.broker pod msgs) :
    Pod.Sound topic f { pod with
      past := pod.past ++ [.consumed msgs], future := rest, position := advance msgs pod.position } := by
  have hevents : pod.past ++ [.consumed msgs] ++ rest = pod.past ++ pod.future := by
    rw [hnext, List.append_assoc, List.singleton_append]
  refine ⟨?_, ?_, fun m hm => ?_, fun m hm => ?_, hp.delivered hdelivers, hp.bounded⟩
  · show Main.NoLoss (pod.past ++ [.consumed msgs] ++ rest)
    rw [hevents]
    exact hp.noLoss
  · show Main.CommitsTaken (pod.past ++ [.consumed msgs] ++ rest)
    rw [hevents]
    exact hp.taken
  · rcases covered_snoc hm with hold | ⟨_, _, heq, -⟩ | ⟨_, _, heq, -⟩
    · exact hp.covered m hold
    · cases heq
    · cases heq
  · have hin : m ∈ Main.consumed pod.past ∨ m ∈ msgs := by
      have hboth : m ∈ Main.consumed (pod.past ++ [.consumed msgs]) := hm
      rw [Main.consumed_append] at hboth
      exact (List.mem_append.1 hboth).imp_right fun h => by simpa [Main.consumed] using h
    rcases hin with hold | hnew
    · obtain ⟨n, hn, hlt⟩ := hp.seen m hold
      obtain ⟨n', hn', hle⟩ := le_advance msgs hn
      exact ⟨n', hn', by omega⟩
    · exact lt_advance m hnew

/-- What a pod commits is settled: it consumed all of it, and `NoLoss` says that it is covered. -/
theorem Pod.Sound.commit (hp : pod.Sound topic f) {offsets : List (Key × ℕ)} {rest : List Event}
    (hnext : pod.future = .commit offsets :: rest) {k : Key} {n : ℕ} (hmem : (k, n) ∈ offsets) :
    Settled f.broker f.Done k n := by
  have hevents : pod.past ++ pod.future = pod.past ++ .commit offsets :: rest := by rw [hnext]
  obtain ⟨offset, rfl, m₀, hm₀, -, rfl, rfl⟩ := hp.taken _ _ _ hevents k n hmem
  obtain ⟨p, hpos, hlt⟩ := hp.seen m₀ hm₀
  have hsettled := (hp.settled _ p hpos).le (Nat.succ_le_of_lt hlt)
  refine ⟨hsettled.le_next, fun m hm hkey hbefore hrec => ?_⟩
  rcases hsettled.done m hm hkey hbefore with hdone | hin
  · exact hdone hrec
  · have hcovered := hp.noLoss _ _ _ hevents m₀.key (m₀.offset + 1) hmem m hin hrec hkey hbefore
    exact (hp.covered m hcovered).imp_right Or.inl

theorem grows_happen (f : Fleet) (i : ℕ) (pod : Pod) (takes : Key → Bool) (e : Event)
    (rest : List Event) : f.Grows (f.happen i pod takes e rest) := by
  cases e with
  | polled t => exact ⟨rfl, fun _ h => h, fun _ h => h, fun _ h => h⟩
  | consumed msgs => exact ⟨rfl, fun _ h => h, fun _ h => h, fun _ h => h⟩
  | skipped msgs reason => exact ⟨rfl, fun _ h => h, fun _ h => List.mem_append_left _ h, fun _ h => h⟩
  | wrote batch count => exact ⟨rfl, fun _ h => List.mem_append_left _ h, fun _ h => h, fun _ h => h⟩
  | commit offsets => exact ⟨rfl, fun _ h => h, fun _ h => h, fun _ h => h⟩

theorem Fleet.Sound.happen (hf : f.Sound topic) (hpod : f.pods i = some pod) {e : Event}
    {rest : List Event} (hnext : pod.future = e :: rest)
    (hdelivers : ∀ msgs, e = .consumed msgs → Delivers f.broker pod msgs) (takes : Key → Bool) :
    (f.happen i pod takes e rest).Sound topic := by
  have hgrows := grows_happen f i pod takes e rest
  have hp : pod.Sound topic (f.happen i pod takes e rest) := (hf.pods i pod hpod).grows hgrows
  cases e with
  | polled t =>
      refine hf.withPod hgrows rfl (hp.quiet hnext rfl ?_) fun k n hn => Or.inl hn
      rintro m (⟨_, _, heq, -⟩ | ⟨_, _, heq, -⟩) <;> cases heq
  | consumed msgs =>
      exact hf.withPod hgrows rfl (hp.polled hnext (hdelivers msgs rfl)) fun k n hn => Or.inl hn
  | skipped msgs reason =>
      refine hf.withPod hgrows rfl (hp.quiet hnext rfl ?_) fun k n hn => Or.inl hn
      rintro m (⟨_, _, heq, -⟩ | ⟨_, _, heq, hm⟩)
      · cases heq
      · cases heq
        exact Or.inr (List.mem_append_right _ hm)
  | wrote batch count =>
      refine hf.withPod hgrows rfl (hp.quiet hnext rfl ?_) fun k n hn => Or.inl hn
      rintro m (⟨_, _, heq, hm⟩ | ⟨_, _, heq, -⟩)
      · cases heq
        exact Or.inl (List.mem_append_right _ hm)
      · cases heq
  | commit offsets =>
      refine hf.withPod hgrows rfl (hp.quiet hnext rfl ?_) fun k n hn => ?_
      · rintro m (⟨_, _, heq, -⟩ | ⟨_, _, heq, -⟩) <;> cases heq
      · have hstored : storeOffsets offsets takes f.committed k = some n := hn
        unfold storeOffsets at hstored
        split at hstored
        · cases hlookup : offsets.lookup k with
          | none =>
              rw [hlookup, Option.none_or] at hstored
              exact Or.inl hstored
          | some n' =>
              rw [hlookup, Option.some_or] at hstored
              cases hstored
              exact Or.inr (hp.commit hnext (mem_of_lookup_eq_some hlookup))
        · exact Or.inl hstored

/-! ## Runs -/

theorem Fleet.Sound.recover (hf : f.Sound topic) (hpod : f.pods i = some pod) {replies : StartupReplies}
    (hphase : pod.phase = .sawEnds replies) (takes : ℕ → Bool) :
    ((f.recover topic reset replies takes).withPod i { pod with phase := .running }).Sound topic := by
  have hp := hf.pods i pod hpod
  have hbounded := hp.bounded
  rw [hphase] at hbounded
  have hgrows : f.Grows ((f.recover topic reset replies takes).withPod i { pod with phase := .running }) :=
    ⟨rfl, fun _ h => h, fun _ h => h, fun _ h => List.mem_append_left _ h⟩
  have hrunning : Phase.running.Bounded topic f.broker := trivial
  exact hf.withPod hgrows rfl ((hp.grows hgrows).phase hrunning) fun k n hn =>
    settled_recover hbounded takes hn

theorem Fleet.Sound.seek (hf : f.Sound topic) (hpod : f.pods i = some pod) (k : Key)
    (hlost : ∀ n, pod.position k = some n → n < f.broker.start k) :
    (f.seek reset i pod k).Sound topic := by
  have hgrows : f.Grows (f.seek reset i pod k) := grows_seek f i pod k
  have hp := (hf.pods i pod hpod).grows hgrows
  refine hf.withPod hgrows rfl ⟨hp.noLoss, hp.taken, hp.covered, fun m hm => ?_, fun k' n hn => ?_,
    hp.bounded⟩ fun k' n hn => Or.inl hn
  · obtain ⟨n, hn, hlt⟩ := hp.seen m hm
    by_cases heq : m.key = k
    · -- a position below the start moves up
      subst heq
      refine ⟨_, Function.update_self _ _ _, ?_⟩
      have hstart := hlost n hn
      have hresolved := (f.broker.resolve_inRange reset m.key
        (if (pod.position m.key).isNone then f.committed m.key else none)).1
      omega
    · exact ⟨n, (Function.update_of_ne heq _ _).trans hn, hlt⟩
  · by_cases heq : k' = k
    · subst heq
      have hoffset : _ = some n := (Function.update_self k' _ pod.position).symm.trans hn
      obtain rfl := Option.some.inj hoffset
      exact (settled_seek hf i pod k').mono fun m _ => Or.inl
    · exact hp.settled k' n ((Function.update_of_ne heq _ _).symm.trans hn)

theorem Fleet.Sound.step (hf : f.Sound topic) (hstep : Step topic reset f f') : f'.Sound topic := by
  cases hstep with
  | broker b moves => exact hf.moves moves
  | start i partitionCount replicaCount ordinal events runs =>
      exact hf.withPod (grows_withPod f i _) rfl (Pod.sound_new runs _ _ _) fun k n hn => Or.inl hn
  | stop i =>
      have hgrows : f.Grows { f with pods := Function.update f.pods i none } :=
        ⟨rfl, fun _ h => h, fun _ h => h, fun _ h => h⟩
      refine ⟨fun k n hn => hgrows.settled (hf.committed k n hn), fun i' pod hpod => ?_⟩
      have hother : f.pods i' = some pod := by
        by_cases heq : i' = i
        · subst heq
          have hnone : Function.update f.pods i' none i' = some pod := hpod
          rw [Function.update_self] at hnone
          cases hnone
        · exact (Function.update_of_ne heq none f.pods).symm.trans hpod
      exact (hf.pods i' pod hother).grows hgrows
  | ask i pod here phase committed tells => exact hf.enter here trivial
  | seeStarts i pod here committed phase earliest tells => exact hf.enter here (tells_le tells)
  | seeEnds i pod here committed earliest phase latest tells commitRaises =>
      have hbounded := (hf.pods i pod here).bounded
      rw [phase] at hbounded
      exact hf.enter here ⟨hbounded, tells_le tells⟩
  | recover i pod here replies phase takes => exact hf.recover here phase takes
  | seek i pod here phase p mine lost => exact hf.seek here _ lost
  | event i pod here phase e rest next delivers takes => exact hf.happen here next delivers takes

/-- Under `earliest` no reset passes over anything. -/
theorem waived_step (hstep : Step topic .earliest f f') (h : f.waived = []) : f'.waived = [] := by
  have hnone : ∀ b k n, passedOver .earliest b k n = [] := fun _ _ _ => rfl
  cases hstep with
  | recover i pod here replies phase takes =>
      show f.waived ++ List.flatMap _ _ = []
      rw [h, List.nil_append]
      exact List.flatMap_eq_nil_iff.2 fun entry _ => hnone _ _ _
  | seek i pod here phase p mine lost =>
      show f.waived ++ _ = []
      rw [h, hnone, ite_self, List.nil_append]
  | event i pod here phase e rest next delivers takes => cases e <;> exact h
  | broker b moves => exact h
  | start i partitionCount replicaCount ordinal events runs => exact h
  | stop i => exact h
  | ask i pod here phase committed tells => exact h
  | seeStarts i pod here committed phase earliest tells => exact h
  | seeEnds i pod here committed earliest phase latest tells commitRaises => exact h

theorem waived_run (hrun : Relation.ReflTransGen (Step topic .earliest) f f') (h : f.waived = []) :
    f'.waived = [] := by
  induction hrun with
  | refl => exact h
  | tail _ hstep ih => exact waived_step hstep ih

theorem Fleet.Fresh.sound (h : f.Fresh) : f.Sound topic where
  committed k n hn := by
    rw [h.committed] at hn
    cases hn
  pods i pod hpod := by
    rw [h.pods] at hpod
    cases hpod

/-- **The fleet loses nothing.** However pods of any replica counts start, stop, overlap and recover, none
    of whose stages raises with rows pending, and whatever the broker appends and deletes meanwhile: a
    record that the broker still has before the committed offset of its partition was in a batch whose
    write returned, or was counted as skipped, or, only under `latest`, was passed over by a reset. -/
theorem fleet_loses_nothing (topic : String) (reset : Reset) (f₀ f : Fleet) (hstart : f₀.Fresh)
    (hrun : Relation.ReflTransGen (Step topic reset) f₀ f) :
    ∀ m ∈ f.broker.retained, m.isRecord = true → ∀ n, f.committed m.key = some n → m.offset < n →
      m ∈ f.written ∨ m ∈ f.skipped ∨ (reset = .latest ∧ m ∈ f.waived) := by
  have hsound : f.Sound topic := by
    induction hrun with
    | refl => exact hstart.sound
    | tail _ hstep ih => exact ih.step hstep
  intro m hm hrec n hn hlt
  rcases (hsound.committed m.key n hn).done m hm rfl hlt hrec with hwritten | hskipped | hwaived
  · exact Or.inl hwritten
  · exact Or.inr (Or.inl hskipped)
  · refine Or.inr (Or.inr ⟨?_, hwaived⟩)
    cases reset with
    | latest => rfl
    | earliest =>
        rw [waived_run hrun hstart.waived] at hwaived
        cases hwaived

/-- One partition with one record, and nobody there. -/
def newTopic : Fleet where
  broker := ⟨[Main.Script.record 0], fun _ => 0, fun _ => 1, fun _ => by decide, by
    intro m hm
    obtain rfl := List.mem_singleton.1 hm
    decide⟩
  committed _ := none
  pods _ := none
  written := []
  skipped := []
  waived := []

/-- A pod that consumes the record, writes it on shutdown and commits. -/
def oneRecord : List Event :=
  [.polled 0, .consumed [Main.Script.record 0], .skipped [] (.keepFilter .fieldMissing),
    .skipped [] (.keepFilter .valueInvalid), .skipped [] (.keepFilter .excluded),
    .skipped [] .filterDropped, .wrote [Main.Script.record 0] 1, .commit [(("events", 0), 1)]]

theorem oneRecord_runs : RunsLoop oneRecord := by
  refine ⟨Unit, Main.Script, Main.Script.runtime, Main.lossConfig, ⟨[[Main.Script.record 0]], [], 0⟩, 2,
    ?_, by decide +kernel⟩
  rintro ⟨failure, s, hfail, -⟩
  have hnone : (Main.loopFailure Main.Script.runtime Main.lossConfig
      ⟨[[Main.Script.record 0]], [], 0⟩ 2).isNone = true := by decide +kernel
  rw [hfail] at hnone
  cases hnone

theorem newTopic_loses_nothing : ∃ f : Fleet, Relation.ReflTransGen (Step "events" .earliest) newTopic f ∧
    f.committed ("events", 0) = some 1 ∧ ∀ m ∈ f.broker.retained, m.isRecord = true →
      ∀ n, f.committed m.key = some n → m.offset < n →
        m ∈ f.written ∨ m ∈ f.skipped ∨ (Reset.earliest = .latest ∧ m ∈ f.waived) := by
  have hrun := Relation.ReflTransGen.refl (r := Step "events" .earliest) (a := newTopic)
    |>.tail (.start _ 0 1 1 0 oneRecord oneRecord_runs)
    |>.tail (.ask _ 0 _ rfl rfl (some [⟨0, offsetInvalid, false⟩]) (by
      rintro _ ⟨⟩
      decide))
    |>.tail (.seeStarts _ 0 _ rfl _ rfl (some fun _ => some 0) (by
      rintro _ ⟨⟩ _ _ ⟨⟩
      rfl))
    |>.tail (.seeEnds _ 0 _ rfl _ _ rfl (some fun _ => some 1) (by
      rintro _ ⟨⟩ _ _ ⟨⟩
      rfl) false)
    |>.tail (.recover _ 0 _ rfl _ rfl fun _ => true)
    |>.tail (.seek _ 0 _ rfl rfl 0 (by decide) fun _ h => by cases h)
    |>.tail (.event _ 0 _ rfl rfl _ _ rfl (fun _ h => by cases h) fun _ => true)
    |>.tail (.event _ 0 _ rfl rfl _ _ rfl (fun _ h => by
      cases h
      intro m hm
      obtain rfl := List.mem_singleton.1 hm
      exact ⟨0, rfl, by decide, fun _ hm' _ _ _ _ => hm'⟩) fun _ => true)
    |>.tail (.event _ 0 _ rfl rfl _ _ rfl (fun _ h => by cases h) fun _ => true)
    |>.tail (.event _ 0 _ rfl rfl _ _ rfl (fun _ h => by cases h) fun _ => true)
    |>.tail (.event _ 0 _ rfl rfl _ _ rfl (fun _ h => by cases h) fun _ => true)
    |>.tail (.event _ 0 _ rfl rfl _ _ rfl (fun _ h => by cases h) fun _ => true)
    |>.tail (.event _ 0 _ rfl rfl _ _ rfl (fun _ h => by cases h) fun _ => true)
    |>.tail (.event _ 0 _ rfl rfl _ _ rfl (fun _ h => by cases h) fun _ => true)
  exact ⟨_, hrun, rfl, fleet_loses_nothing "events" .earliest newTopic _
    ⟨fun _ => rfl, fun _ => rfl, rfl⟩ hrun⟩

end Millpond.Consumer
