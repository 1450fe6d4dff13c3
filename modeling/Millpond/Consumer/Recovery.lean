import Millpond.Consumer.Startup
import Millpond.Lib.Options

set_option autoImplicit false

/-! # The recovery of stale offsets

The recovery writes down where librdkafka would start anyway, and the seeded gauges say so. -/

namespace Millpond.Consumer

open Main (Msg Key)
open PartitionLog (Reset)

instance : Placed Msg Key := ⟨Msg.key, Msg.offset⟩

/-! ## Dicts -/

theorem mem_of_dictGet {α : Type} {entries : List (ℕ × α)} {p : ℕ} {a : α}
    (h : dictGet entries p = some a) : (p, a) ∈ entries :=
  List.mem_reverse.1 (mem_of_lookup_eq_some h)

theorem dictGet_of_mem {α : Type} {entries : List (ℕ × α)} {p : ℕ} {a : α}
    (hnodup : (entries.map Prod.fst).Nodup) (h : (p, a) ∈ entries) : dictGet entries p = some a := by
  refine lookup_of_mem ?_ (List.mem_reverse.2 h)
  rw [List.map_reverse]
  exact List.nodup_reverse.2 hnodup

theorem keys_filterMap_sublist {α β : Type} {f : α → Option (ℕ × β)} {key : α → ℕ}
    (h : ∀ a e, f a = some e → e.1 = key a) (items : List α) :
    ((items.filterMap f).map Prod.fst).Sublist (items.map key) := by
  induction items with
  | nil => exact .slnil
  | cons a rest ih =>
      rw [List.filterMap_cons, List.map_cons]
      split
      · exact ih.cons _
      · next e he =>
          rw [List.map_cons, h a e he]
          exact ih.cons_cons _

/-! ## Watermarks -/

theorem watermark_eq_some {lows highs : ℕ → Option ℤ} {p p' : ℕ} {low high : ℤ} :
    watermark lows highs p' = some (p, (low, high)) ↔
      p' = p ∧ lows p = some low ∧ highs p = some high := by
  unfold watermark
  cases hl : lows p' with
  | none =>
      constructor
      · intro h
        cases h
      · rintro ⟨rfl, hlow, -⟩
        rw [hl] at hlow
        cases hlow
  | some l =>
      cases hh : highs p' with
      | none =>
          constructor
          · intro h
            cases h
          · rintro ⟨rfl, -, hhigh⟩
            rw [hh] at hhigh
            cases hhigh
      | some h =>
          constructor
          · intro heq
            cases heq
            exact ⟨rfl, hl, hh⟩
          · rintro ⟨rfl, hlow, hhigh⟩
            rw [hl] at hlow
            rw [hh] at hhigh
            cases hlow
            cases hhigh
            rfl

theorem mem_queryWatermarks {earliest latest : Futures} {tps : List ℕ} {p : ℕ} {low high : ℤ} :
    (p, (low, high)) ∈ queryWatermarks earliest latest tps ↔ p ∈ tps ∧
      ∃ lows highs, earliest = some lows ∧ latest = some highs ∧ lows p = some low ∧
        highs p = some high := by
  unfold queryWatermarks
  split
  · next hempty =>
      rw [List.isEmpty_iff.1 hempty]
      simp
  · split
    · next lows highs =>
        rw [List.mem_filterMap]
        constructor
        · rintro ⟨p', hp', h⟩
          obtain ⟨rfl, hlow, hhigh⟩ := watermark_eq_some.1 h
          exact ⟨hp', lows, highs, rfl, rfl, hlow, hhigh⟩
        · rintro ⟨hp, _, _, hlows, hhighs, hlow, hhigh⟩
          cases hlows
          cases hhighs
          exact ⟨p, hp, watermark_eq_some.2 ⟨rfl, hlow, hhigh⟩⟩
    · next hnot =>
        constructor
        · intro h
          cases h
        · rintro ⟨-, lows, highs, rfl, rfl, -⟩
          exact absurd rfl (hnot lows highs rfl)

theorem nodup_queryWatermarks {earliest latest : Futures} {tps : List ℕ} (h : tps.Nodup) :
    ((queryWatermarks earliest latest tps).map Prod.fst).Nodup := by
  unfold queryWatermarks
  split
  · exact List.nodup_nil
  · split
    · next lows highs =>
        have hkey : ∀ p e, watermark lows highs p = some e → e.1 = id p :=
          fun p e he => (watermark_eq_some.1 he).1.symm
        exact (keys_filterMap_sublist hkey tps).nodup (by rwa [List.map_id])
    · exact List.nodup_nil

/-! ## The replies of a quiet broker -/

/-- The offset `committed()` reports. -/
def storedOffset : Option ℕ → ℤ
  | some n => n
  | none => offsetInvalid

/-- What the clients answer, where they answer, is what the broker has. -/
structure Truthful (topic : String) (b : PartitionLog Msg) (committed : Key → Option ℕ)
    (partitions : List ℕ) (replies : StartupReplies) : Prop where
  distinct : partitions.Nodup
  asked : ∀ tps, replies.committed = some tps → tps.map TopicPartition.partition = partitions
  committed : ∀ tps, replies.committed = some tps → ∀ tp ∈ tps, tp.error = false →
    tp.offset = storedOffset (committed (topic, tp.partition))
  earliest : ∀ lows, replies.earliest = some lows → ∀ p low, lows p = some low →
    low = b.start (topic, p)
  latest : ∀ highs, replies.latest = some highs → ∀ p high, highs p = some high →
    high = b.next (topic, p)

/-- The committed offsets after the recovery, of which the broker takes some. -/
def afterRecovery (topic : String) (committed : Key → Option ℕ) (toRecover : List (ℕ × ℤ))
    (takes : ℕ → Bool) (k : Key) : Option ℕ :=
  if k.1 = topic ∧ takes k.2 then
    match dictGet toRecover k.2 with
    | some offset => some offset.toNat
    | none => committed k
  else committed k

section Quiet

variable {topic : String} {b : PartitionLog Msg} {committed : Key → Option ℕ} {partitions : List ℕ}
  {replies : StartupReplies} {reset : Reset}

theorem TopicPartition.isCommitted_iff {tp : TopicPartition} :
    tp.isCommitted = true ↔ tp.error = false ∧ tp.offset ≠ offsetInvalid := by
  simp [TopicPartition.isCommitted]

theorem TopicPartition.isFresh_iff {tp : TopicPartition} :
    tp.isFresh = true ↔ tp.error = false ∧ tp.offset = offsetInvalid := by
  simp [TopicPartition.isFresh]

theorem storedOffset_eq_invalid {offset : Option ℕ} :
    storedOffset offset = offsetInvalid ↔ offset = none := by
  cases offset with
  | none => simp [storedOffset]
  | some n =>
      simp only [storedOffset, offsetInvalid, reduceCtorEq]

theorem resetTarget_eq (b : PartitionLog Msg) (reset : Reset) (k : Key) :
    resetTarget reset (b.start k) (b.next k) = (b.target reset k : ℤ) := by
  cases reset <;> rfl

/-- The committed offset of a partition that reports one. -/
theorem Truthful.offset (h : Truthful topic b committed partitions replies) {tps : List TopicPartition}
    (htps : replies.committed = some tps) {tp : TopicPartition} (htp : tp ∈ tps)
    (hcommitted : tp.isCommitted = true) :
    ∃ n : ℕ, committed (topic, tp.partition) = some n ∧ tp.offset = n := by
  obtain ⟨herror, hvalid⟩ := TopicPartition.isCommitted_iff.1 hcommitted
  have hoffset := h.committed tps htps tp htp herror
  cases hstored : committed (topic, tp.partition) with
  | none => exact absurd (hoffset.trans (by rw [hstored]; rfl)) hvalid
  | some n => exact ⟨n, rfl, hoffset.trans (by rw [hstored]; rfl)⟩

theorem Truthful.watermarks (h : Truthful topic b committed partitions replies) {tps : List ℕ} {p : ℕ}
    {low high : ℤ} (hmem : (p, (low, high)) ∈ queryWatermarks replies.earliest replies.latest tps) :
    low = b.start (topic, p) ∧ high = b.next (topic, p) := by
  obtain ⟨-, lows, highs, hlows, hhighs, hlow, hhigh⟩ := mem_queryWatermarks.1 hmem
  exact ⟨h.earliest lows hlows p low hlow, h.latest highs hhighs p high hhigh⟩

/-- Why a partition is recovered, and to where. -/
theorem exists_of_mem_toRecover {p : ℕ} {offset : ℤ}
    (hmem : (p, offset) ∈ (recoverStaleCommittedOffsets reset replies).toRecover) :
    ∃ tps tp tps' low high, replies.committed = some tps ∧ tp ∈ tps ∧ tp.isCommitted = true ∧
      tp.partition = p ∧ (p, (low, high)) ∈ queryWatermarks replies.earliest replies.latest tps' ∧
      tp.offset < low ∧ offset = resetTarget reset low high := by
  unfold recoverStaleCommittedOffsets at hmem
  split at hmem
  · cases hmem
  · next tps htps =>
      obtain ⟨tp, htp, hrecovered⟩ := List.mem_filterMap.1 hmem
      obtain ⟨hin, hcommitted⟩ := List.mem_filter.1 htp
      unfold recoveredOffset at hrecovered
      split at hrecovered
      · cases hrecovered
      · next low high hget =>
          split at hrecovered
          · cases hrecovered
          · next hstale =>
              obtain ⟨rfl, rfl⟩ : tp.partition = p ∧ resetTarget reset low high = offset := by
                simpa using hrecovered
              exact ⟨tps, tp, _, low, high, htps, hin, hcommitted, rfl, mem_of_dictGet hget,
                not_le.1 hstale, rfl⟩

/-- What is recovered was committed below the start of its partition, and moves to the target. -/
theorem Truthful.recovered (h : Truthful topic b committed partitions replies) {p : ℕ} {offset : ℤ}
    (hmem : (p, offset) ∈ (recoverStaleCommittedOffsets reset replies).toRecover) :
    ∃ n : ℕ, committed (topic, p) = some n ∧ n < b.start (topic, p) ∧
      offset = b.target reset (topic, p) := by
  obtain ⟨tps, tp, tps', low, high, htps, hin, hcommitted, rfl, hwatermark, hstale, rfl⟩ :=
    exists_of_mem_toRecover hmem
  obtain ⟨n, hn, hoffset⟩ := h.offset htps hin hcommitted
  obtain ⟨hlow, hhigh⟩ := h.watermarks hwatermark
  refine ⟨n, hn, ?_, ?_⟩
  · rw [hlow, hoffset] at hstale
    exact_mod_cast hstale
  · rw [hlow, hhigh, resetTarget_eq]

theorem Truthful.afterRecovery (h : Truthful topic b committed partitions replies) (takes : ℕ → Bool)
    (k : Key) : afterRecovery topic committed (recoverStaleCommittedOffsets reset replies).toRecover
        takes k = committed k ∨
      (∃ n, committed k = some n ∧ n < b.start k) ∧
        Consumer.afterRecovery topic committed (recoverStaleCommittedOffsets reset replies).toRecover takes k =
          some (b.target reset k) := by
  obtain ⟨t, p⟩ := k
  unfold Consumer.afterRecovery
  split
  · next hk =>
      obtain ⟨rfl, -⟩ := hk
      split
      · next offset hget =>
          obtain ⟨n, hn, hlt, rfl⟩ := h.recovered (mem_of_dictGet hget)
          exact Or.inr ⟨⟨n, hn, hlt⟩, rfl⟩
      · exact Or.inl rfl
  · exact Or.inl rfl

/-- **The recovery is only an optimisation.** While the log stands still between the replies, the first
    fetches and the next start: whatever part of it the broker takes, every partition starts where it
    would have started without it; an offset it changes was out of range and is in range now; and a
    partition it changed is not stale for the next start. -/
theorem recovery_keeps_positions (topic : String) (b : PartitionLog Msg) (committed : Key → Option ℕ)
    (partitions : List ℕ) (reset : Reset) (replies : StartupReplies)
    (h : Truthful topic b committed partitions replies) (takes : ℕ → Bool) :
    let stored := Consumer.afterRecovery topic committed
      (recoverStaleCommittedOffsets reset replies).toRecover takes
    (∀ k, b.resolve reset k (stored k) = b.resolve reset k (committed k)) ∧
      (∀ k, stored k ≠ committed k → ∃ n, stored k = some n ∧ b.InRange k n) ∧
      ∀ replies', Truthful topic b stored partitions replies' → ∀ p, stored (topic, p) ≠ committed (topic, p) →
        p ∉ (recoverStaleCommittedOffsets reset replies').toRecover.map Prod.fst := by
  intro stored
  have hstored : ∀ k, stored k = committed k ∨ (∃ n, committed k = some n ∧ n < b.start k) ∧
      stored k = some (b.target reset k) := h.afterRecovery takes
  refine ⟨fun k => ?_, fun k hne => ?_, fun replies' h' p hne hmem => ?_⟩
  · rcases hstored k with heq | ⟨⟨n, hn, hlt⟩, heq⟩
    · rw [heq]
    · have hout : ¬ b.InRange k n := fun hin => absurd hin.1 (not_le.2 hlt)
      rw [heq, hn]
      simp only [PartitionLog.resolve, if_pos (b.inRange_target reset k), if_neg hout]
  · obtain ⟨-, heq⟩ := (hstored k).resolve_left hne
    exact ⟨_, heq, b.inRange_target reset k⟩
  · obtain ⟨⟨p', offset⟩, hin, rfl⟩ := List.mem_map.1 hmem
    obtain ⟨n, hn, hlt, -⟩ := h'.recovered hin
    obtain ⟨-, heq⟩ := (hstored (topic, p')).resolve_left hne
    obtain rfl : b.target reset (topic, p') = n := Option.some.inj (heq.symm.trans hn)
    exact absurd (b.inRange_target reset (topic, p')).1 (not_le.2 hlt)

/-- Offsets 5 to 8 of every partition are there; partition 0 was committed before them, partition 1 among
    them, partition 2 never. -/
def quietLog : PartitionLog Msg := ⟨[], fun _ => 5, fun _ => 9, fun _ => by decide, by simp⟩

def quietCommitted (k : Key) : Option ℕ := if k.2 = 0 then some 2 else if k.2 = 1 then some 7 else none

def quietReplies : StartupReplies where
  committed := some [⟨0, 2, false⟩, ⟨1, 7, false⟩, ⟨2, offsetInvalid, false⟩]
  earliest := some fun _ => some 5
  latest := some fun _ => some 9
  commitRaises := false

theorem quietReplies_truthful : Truthful "events" quietLog quietCommitted [0, 1, 2] quietReplies where
  distinct := by decide
  asked := by
    rintro _ ⟨⟩
    rfl
  committed := by
    rintro _ ⟨⟩
    decide
  earliest := by
    rintro _ ⟨⟩ _ _ ⟨⟩
    rfl
  latest := by
    rintro _ ⟨⟩ _ _ ⟨⟩
    rfl

theorem quiet_recovery_keeps_positions :
    quietLog.resolve .latest ("events", 0) (afterRecovery "events" quietCommitted
      (recoverStaleCommittedOffsets .latest quietReplies).toRecover (fun _ => true) ("events", 0)) =
        quietLog.resolve .latest ("events", 0) (quietCommitted ("events", 0)) :=
  (recovery_keeps_positions "events" quietLog quietCommitted [0, 1, 2] .latest quietReplies
    quietReplies_truthful fun _ => true).1 ("events", 0)

/-! ## The seeded gauges -/

/-- The replies without an error, as the watermarks are asked for. -/
def answered (tps : List TopicPartition) : List TopicPartition :=
  tps.filter TopicPartition.isCommitted ++ tps.filter TopicPartition.isFresh

theorem mem_answered {tps : List TopicPartition} {tp : TopicPartition} :
    tp ∈ answered tps ↔ tp ∈ tps ∧ tp.error = false := by
  simp only [answered, List.mem_append, List.mem_filter, ← and_or_left, TopicPartition.isCommitted_iff,
    TopicPartition.isFresh_iff]
  refine and_congr_right fun _ => ?_
  rw [or_comm]
  exact and_iff_left (em _)

theorem Truthful.nodup_answered (h : Truthful topic b committed partitions replies)
    {tps : List TopicPartition} (htps : replies.committed = some tps) :
    ((answered tps).map TopicPartition.partition).Nodup := by
  have hnodup : (tps.map TopicPartition.partition).Nodup := by
    rw [h.asked tps htps]
    exact h.distinct
  rw [answered, List.map_append]
  refine List.nodup_append.2 ⟨(List.filter_sublist.map _).nodup hnodup,
    (List.filter_sublist.map _).nodup hnodup, fun p hp p' hp' heq => ?_⟩
  obtain ⟨tp, htp, rfl⟩ := List.mem_map.1 hp
  obtain ⟨tp', htp', rfl⟩ := List.mem_map.1 hp'
  obtain ⟨hin, hcommitted⟩ := List.mem_filter.1 htp
  obtain ⟨hin', hfresh⟩ := List.mem_filter.1 htp'
  obtain rfl := List.inj_on_of_nodup_map hnodup hin hin' heq
  exact (TopicPartition.isCommitted_iff.1 hcommitted).2 (TopicPartition.isFresh_iff.1 hfresh).2

/-- The gauges are seeded from the watermarks of the answered partitions, with what was recovered if
    the commit went through. -/
theorem gauges_eq (reset : Reset) {tps : List TopicPartition} (htps : replies.committed = some tps) :
    ∃ recovered : List (ℕ × ℤ),
      (∀ entry ∈ recovered, entry ∈ (recoverStaleCommittedOffsets reset replies).toRecover) ∧
      (recoverStaleCommittedOffsets reset replies).gauges = seedStartupGauges reset tps
        (queryWatermarks replies.earliest replies.latest
          ((answered tps).map TopicPartition.partition)) recovered := by
  unfold recoverStaleCommittedOffsets
  rw [htps]
  refine ⟨_, fun entry hentry => ?_, rfl⟩
  split at hentry
  · cases hentry
  · exact hentry

/-- The reply a position is read from. -/
theorem Truthful.reply (h : Truthful topic b committed partitions replies) {tps : List TopicPartition}
    (htps : replies.committed = some tps) {tp : TopicPartition} (htp : tp ∈ tps) :
    dictGet (tps.map fun tp => (tp.partition, tp)) tp.partition = some tp := by
  refine dictGet_of_mem ?_ (List.mem_map_of_mem htp)
  rw [List.map_map]
  have hsame : (tps.map (Prod.fst ∘ fun tp => (tp.partition, tp))) = partitions := h.asked tps htps
  rw [hsame]
  exact h.distinct

/-- A stored offset that lies between the watermarks, or the target. -/
theorem resolve_of_storedOffset {k : Key} {offset : Option ℕ} (hend : ∀ n, offset = some n → n ≤ b.next k) :
    (b.resolve reset k offset : ℤ) = if storedOffset offset ≠ offsetInvalid ∧
      (b.start k : ℤ) ≤ storedOffset offset then storedOffset offset else b.target reset k := by
  cases offset with
  | none => simp [storedOffset, PartitionLog.resolve]
  | some n =>
      have hvalid : storedOffset (some n) ≠ offsetInvalid := fun heq => by
        cases storedOffset_eq_invalid.1 heq
      have hrange : b.InRange k n ↔ (b.start k : ℤ) ≤ storedOffset (some n) := by
        simp only [PartitionLog.InRange, storedOffset, Nat.cast_le]
        exact and_iff_left (hend n rfl)
      simp only [PartitionLog.resolve, hvalid, ne_eq, not_false_eq_true, true_and, ← hrange]
      split <;> rfl

theorem Truthful.position (h : Truthful topic b committed partitions replies) {tps : List TopicPartition}
    (htps : replies.committed = some tps) {recovered : List (ℕ × ℤ)}
    (hrecovered : ∀ entry ∈ recovered, entry ∈ (recoverStaleCommittedOffsets reset replies).toRecover)
    {tp : TopicPartition} (htp : tp ∈ tps) (herror : tp.error = false)
    (hend : ∀ n, committed (topic, tp.partition) = some n → n ≤ b.next (topic, tp.partition)) :
    seededPosition reset tps recovered tp.partition (b.start (topic, tp.partition))
      (b.next (topic, tp.partition)) =
        b.resolve reset (topic, tp.partition) (committed (topic, tp.partition)) := by
  have hoffset := h.committed tps htps tp htp herror
  unfold seededPosition
  split
  · next offset hget =>
      obtain ⟨n, hn, hlt, rfl⟩ := h.recovered (hrecovered _ (mem_of_dictGet hget))
      have hout : ¬ b.InRange (topic, tp.partition) n := fun hin => absurd hin.1 (not_le.2 hlt)
      rw [hn]
      simp only [PartitionLog.resolve, if_neg hout]
  · rw [h.reply htps htp, resolve_of_storedOffset hend, ← hoffset, resetTarget_eq]
    simp only [TopicPartition.isCommitted, herror, Bool.not_false, Bool.true_and, Bool.and_eq_true,
      bne_iff_ne, decide_eq_true_eq]

theorem map_fst_seedStartupGauges (reset : Reset) (tps : List TopicPartition)
    (watermarks : List (ℕ × (ℤ × ℤ))) (recovered : List (ℕ × ℤ)) :
    (seedStartupGauges reset tps watermarks recovered).map Prod.fst = watermarks.map Prod.fst := by
  unfold seedStartupGauges
  rw [List.map_map]
  rfl

/-- **The seeded gauges tell where the pod starts.** While the log stands still between the replies and
    the first fetches, and no stored offset lies past the end of its partition: every partition whose
    offset and watermarks were answered has one gauge, of the position librdkafka resolves to and its
    distance from the end. -/
theorem seeded_gauges_tell_start (topic : String) (b : PartitionLog Msg) (committed : Key → Option ℕ)
    (partitions : List ℕ) (reset : Reset) (replies : StartupReplies)
    (h : Truthful topic b committed partitions replies)
    (hend : ∀ p n, committed (topic, p) = some n → n ≤ b.next (topic, p)) :
    let gauges := (recoverStaleCommittedOffsets reset replies).gauges
    (gauges.map Prod.fst).Nodup ∧
      (∀ p lag position, (p, (lag, position)) ∈ gauges →
        position = b.resolve reset (topic, p) (committed (topic, p)) ∧
          lag = b.next (topic, p) - position ∧ 0 ≤ lag) ∧
      ∀ tps lows highs, replies.committed = some tps → replies.earliest = some lows →
        replies.latest = some highs → ∀ tp ∈ tps, tp.error = false → (lows tp.partition).isSome →
          (highs tp.partition).isSome → tp.partition ∈ gauges.map Prod.fst := by
  intro gauges
  cases htps : replies.committed with
  | none =>
      have hnone : gauges = [] := by
        simp only [gauges, recoverStaleCommittedOffsets, htps]
      rw [hnone]
      exact ⟨List.nodup_nil, fun _ _ _ hmem => absurd hmem List.not_mem_nil, fun _ _ _ heq => by cases heq⟩
  | some tps =>
      obtain ⟨recovered, hrecovered, heq⟩ := gauges_eq reset htps
      have hgauges : gauges = seedStartupGauges reset tps (queryWatermarks replies.earliest
        replies.latest ((answered tps).map TopicPartition.partition)) recovered := heq
      have hkeys : gauges.map Prod.fst = (queryWatermarks replies.earliest replies.latest
          ((answered tps).map TopicPartition.partition)).map Prod.fst := by
        rw [hgauges]
        exact map_fst_seedStartupGauges reset tps _ recovered
      refine ⟨?_, fun p lag position hmem => ?_, fun _ lows highs heq hlows hhighs tp htp herror hlow hhigh => ?_⟩
      · rw [hkeys]
        exact nodup_queryWatermarks (h.nodup_answered htps)
      · rw [hgauges] at hmem
        obtain ⟨⟨p', low, high⟩, hwatermark, heq⟩ := List.mem_map.1 hmem
        obtain ⟨rfl, rfl⟩ := h.watermarks hwatermark
        obtain ⟨hasked, -⟩ := mem_queryWatermarks.1 hwatermark
        obtain ⟨tp, htp, rfl⟩ := List.mem_map.1 hasked
        obtain ⟨hin, herror⟩ := mem_answered.1 htp
        have hposition := h.position htps hrecovered hin herror (hend tp.partition)
        cases heq
        refine ⟨hposition, rfl, ?_⟩
        have hle := (b.resolve_inRange reset (topic, tp.partition) (committed (topic, tp.partition))).2
        rw [hposition]
        omega
      · cases heq
        rw [hkeys]
        obtain ⟨low, hlow⟩ := Option.isSome_iff_exists.1 hlow
        obtain ⟨high, hhigh⟩ := Option.isSome_iff_exists.1 hhigh
        exact List.mem_map.2 ⟨(tp.partition, (low, high)), mem_queryWatermarks.2
          ⟨List.mem_map_of_mem (mem_answered.2 ⟨htp, herror⟩), lows, highs, hlows, hhighs, hlow, hhigh⟩, rfl⟩

theorem quiet_gauges_tell_start : ((recoverStaleCommittedOffsets .latest quietReplies).gauges.map
      Prod.fst).Nodup ∧
    (2, (0, 9)) ∈ (recoverStaleCommittedOffsets .latest quietReplies).gauges ∧
    (9 : ℤ) = quietLog.resolve .latest ("events", 2) (quietCommitted ("events", 2)) := by
  have h := seeded_gauges_tell_start "events" quietLog quietCommitted [0, 1, 2] .latest quietReplies
    quietReplies_truthful fun p n hn => by
      unfold quietCommitted at hn
      split at hn
      · cases hn
        exact (by decide : 2 ≤ 9)
      · split at hn
        · cases hn
          exact (by decide : 7 ≤ 9)
        · cases hn
  have hin : (2, ((0 : ℤ), (9 : ℤ))) ∈ (recoverStaleCommittedOffsets .latest quietReplies).gauges := by
    decide +kernel
  exact ⟨h.1, hin, (h.2.1 2 0 9 hin).1⟩

end Quiet

end Millpond.Consumer
