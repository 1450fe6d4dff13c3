import Millpond.Restart.AtLeastOnce
import Millpond.Main.CallLog
import Millpond.Hoglake.Hints

set_option autoImplicit false

/-! # Whose hint a retry obeys

A `Retry-After` is kept by a hook on every response of the client, and read when `_retry_delay` asks.
Nothing clears it in between: not a flush that succeeds, not the start of an attempt. The hint that is
read is the latest since the one read before it, and so may be older than the failure it is read for. -/

namespace Millpond.Restart

open Hoglake (hintOf lastHint)
open Main (Msg OutCall Interaction Log)

variable {E V : Type}

/-! ## The property -/

/-- The calls of a process around its writes. -/
def Pod.log (pod : Pod E V) (life : Lifetime E V) : Log Hoglake.Raised (State E V) :=
  (Main.runMain pod.runtime.logged pod.loop (life.start, []) life.iterations).world.2

/-- How many responses the client has had. -/
def State.turn (s : State E V) : ℕ := s.sink.world.turn

def isAttempt (i : Interaction Hoglake.Raised (State E V)) : Bool :=
  match i.call with
  | .write .. => true
  | _ => false

def isConsultation (i : Interaction Hoglake.Raised (State E V)) : Bool :=
  match i.call with
  | .hint _ => true
  | _ => false

/-- The attempt that was last. -/
def latestAttempt (log : Log Hoglake.Raised (State E V)) : Option (Interaction Hoglake.Raised (State E V)) :=
  (log.filter isAttempt).getLast?

/-- The responses up to here were there when a hint was read before, or the process started. -/
def since (start : ℕ) (log : Log Hoglake.Raised (State E V)) : ℕ :=
  ((log.filter isConsultation).getLast?.map (·.after.turn)).getD start

/-- `n` is a response of this call. -/
def During (i : Interaction Hoglake.Raised (State E V)) (n : ℕ) : Prop :=
  i.before.turn ≤ n ∧ n < i.after.turn

/-- **A hint that is used came with a response of the attempt that has just failed.** -/
def OwnHints (turns : ℕ → Hoglake.Turn) (log : Log Hoglake.Raised (State E V)) : Prop :=
  ∀ before i after, log = before ++ i :: after → ∀ seconds, i.call = .hint (some seconds) →
    ∃ attempt ∈ latestAttempt before, ∃ n, During attempt n ∧ hintOf (turns n) = some seconds

/-- When a hint is asked for, one came with the attempt, or none came between the last time one was asked
    for and the attempt. -/
def NoStaleHints (turns : ℕ → Hoglake.Turn) (start : ℕ) (log : Log Hoglake.Raised (State E V)) : Prop :=
  ∀ before i after, log = before ++ i :: after → isConsultation i = true →
    ∀ attempt ∈ latestAttempt before, (∃ n, During attempt n ∧ hintOf (turns n) ≠ none) ∨
      ∀ n, since start before ≤ n → n < attempt.before.turn → hintOf (turns n) = none

/-! ## One call more -/

variable {log : Log Hoglake.Raised (State E V)} {i : Interaction Hoglake.Raised (State E V)} {start : ℕ}

theorem split_concat {α : Type} {P : List α → α → Prop} {l : List α} {a : α}
    (hl : ∀ before b after, l = before ++ b :: after → P before b) (ha : P l a) :
    ∀ before b after, l ++ [a] = before ++ b :: after → P before b := by
  intro before b after heq
  rcases List.eq_nil_or_concat after with rfl | ⟨after, c, rfl⟩
  · obtain ⟨rfl, hb⟩ := List.append_inj' heq rfl
    rw [← (List.cons.inj hb).1]
    exact ha
  · rw [List.concat_eq_append, ← List.cons_append, ← List.append_assoc] at heq
    exact hl before b after (List.append_inj' heq rfl).1

theorem latestAttempt_attempt (h : isAttempt i = true) : latestAttempt (log ++ [i]) = some i := by
  rw [latestAttempt, List.filter_append, List.filter_cons_of_pos h, List.filter_nil,
    List.getLast?_append_of_ne_nil _ (List.cons_ne_nil _ _)]
  rfl

theorem latestAttempt_other (h : isAttempt i = false) :
    latestAttempt (log ++ [i]) = latestAttempt log := by
  rw [latestAttempt, List.filter_append, List.filter_cons_of_neg (Bool.eq_false_iff.1 h), List.filter_nil,
    List.append_nil]
  rfl

theorem since_consultation (h : isConsultation i = true) : since start (log ++ [i]) = i.after.turn := by
  rw [since, List.filter_append, List.filter_cons_of_pos h, List.filter_nil,
    List.getLast?_append_of_ne_nil _ (List.cons_ne_nil _ _)]
  rfl

theorem since_other (h : isConsultation i = false) : since start (log ++ [i]) = since start log := by
  rw [since, List.filter_append, List.filter_cons_of_neg (Bool.eq_false_iff.1 h), List.filter_nil,
    List.append_nil]
  rfl

/-! ## What is read -/

/-- What is read after these calls: the latest hint of the attempt, or else of the time before it since
    the last one was read. A second reading finds nothing. -/
def Reads (turns : ℕ → Hoglake.Turn) (start : ℕ) (before : Log Hoglake.Raised (State E V))
    (seconds : Option ℚ) : Prop :=
  (latestAttempt before = none → seconds = none) ∧
    ∀ attempt ∈ latestAttempt before, attempt.before.turn ≤ attempt.after.turn ∧
      (since start before ≤ attempt.before.turn ∧ seconds =
          (lastHint turns attempt.before.turn (attempt.after.turn - attempt.before.turn)).or
            (lastHint turns (since start before) (attempt.before.turn - since start before)) ∨
        attempt.before.turn ≤ since start before ∧ seconds = none)

/-- A process so far: the hint that waits is the latest one since a hint was read. -/
structure Tracked (turns : ℕ → Hoglake.Turn) (start : ℕ) (s : State E V)
    (log : Log Hoglake.Raised (State E V)) : Prop where
  same : s.sink.world.turns = turns
  since_le : since start log ≤ s.turn
  pending : s.sink.sink.retryAfter = lastHint turns (since start log) (s.turn - since start log)
  idle : latestAttempt log = none → s.turn = since start log
  attempt : ∀ attempt ∈ latestAttempt log, attempt.before.turn ≤ attempt.after.turn ∧
    attempt.after.turn = s.turn ∧ (since start log ≤ attempt.before.turn ∨ since start log = s.turn)
  reads : ∀ before i after, log = before ++ i :: after → ∀ seconds, i.call = .hint seconds →
    Reads turns start before seconds

variable {turns : ℕ → Hoglake.Turn} {s s' : State E V}

/-- Nothing of this changes. -/
theorem Tracked.still (h : Tracked turns start s log) (hturns : s'.sink.world.turns = s.sink.world.turns)
    (hturn : s'.turn = s.turn) (hpending : s'.sink.sink.retryAfter = s.sink.sink.retryAfter) :
    Tracked turns start s' log where
  same := hturns.trans h.same
  since_le := hturn ▸ h.since_le
  pending := by rw [hpending, hturn, h.pending]
  idle := fun hnone => hturn.trans (h.idle hnone)
  attempt := by rw [hturn]; exact h.attempt
  reads := h.reads

/-- A call that is neither an attempt nor asks for a hint. -/
theorem Tracked.aside (h : Tracked turns start s log) (hattempt : isAttempt i = false)
    (hconsultation : isConsultation i = false) : Tracked turns start s (log ++ [i]) where
  same := h.same
  since_le := by rw [since_other hconsultation]; exact h.since_le
  pending := by rw [since_other hconsultation]; exact h.pending
  idle := by rw [since_other hconsultation, latestAttempt_other hattempt]; exact h.idle
  attempt := by rw [since_other hconsultation, latestAttempt_other hattempt]; exact h.attempt
  reads := by
    refine split_concat h.reads fun seconds hcall => ?_
    rw [isConsultation, hcall] at hconsultation
    cases hconsultation

/-- What waits is what is read now. -/
theorem Tracked.reads_now (h : Tracked turns start s log) :
    Reads turns start log s.sink.sink.retryAfter := by
  refine ⟨fun hnone => ?_, fun attempt hattempt => ?_⟩
  · rw [h.pending, h.idle hnone, Nat.sub_self]
    rfl
  · obtain ⟨hle, hend, hsince⟩ := h.attempt attempt hattempt
    refine ⟨hle, ?_⟩
    rcases hsince with hsince | hsince
    · refine Or.inl ⟨hsince, ?_⟩
      have hsplit : s.turn - since start log
          = (attempt.before.turn - since start log) + (attempt.after.turn - attempt.before.turn) := by omega
      have hfirst : since start log + (attempt.before.turn - since start log) = attempt.before.turn := by
        omega
      rw [h.pending, hsplit, Hoglake.lastHint_add, hfirst]
    · refine Or.inr ⟨by omega, ?_⟩
      rw [h.pending, hsince, Nat.sub_self]
      rfl

/-- A hint is read. -/
theorem Tracked.consult (h : Tracked turns start s log)
    (hcall : i.call = .hint s.sink.sink.retryAfter) (hafter : i.after.turn = s.turn)
    (hturns : s'.sink.world.turns = s.sink.world.turns) (hturn : s'.turn = s.turn)
    (hpending : s'.sink.sink.retryAfter = none) : Tracked turns start s' (log ++ [i]) := by
  have hconsultation : isConsultation i = true := by rw [isConsultation, hcall]
  have hattempt : isAttempt i = false := by rw [isAttempt, hcall]
  have hsince : since start (log ++ [i]) = s'.turn :=
    (since_consultation hconsultation).trans (hafter.trans hturn.symm)
  refine ⟨hturns.trans h.same, hsince.le, ?_, fun _ => hsince.symm, ?_, ?_⟩
  · rw [hsince, Nat.sub_self, hpending]
    rfl
  · rw [latestAttempt_other hattempt]
    intro attempt hlatest
    obtain ⟨hle, hend, _⟩ := h.attempt attempt hlatest
    exact ⟨hle, hend.trans hturn.symm, Or.inr hsince⟩
  · refine split_concat h.reads fun seconds hseconds => ?_
    obtain rfl : s.sink.sink.retryAfter = seconds := OutCall.hint.inj (hcall.symm.trans hseconds)
    exact h.reads_now

/-- An attempt. -/
theorem Tracked.write (h : Tracked turns start s log) (hattempt : isAttempt i = true)
    (hbefore : i.before = s) (hafter : i.after = s') (hheard : Hoglake.Heard s.sink s'.sink) :
    Tracked turns start s' (log ++ [i]) := by
  have hconsultation : isConsultation i = false := by
    unfold isAttempt at hattempt
    unfold isConsultation
    cases hcall : i.call <;> first | rfl | (rw [hcall] at hattempt; cases hattempt)
  obtain ⟨hturns, count, hturn, hpending⟩ := hheard
  have hturn' : s'.turn = s.turn + count := hturn
  have hle := h.since_le
  refine ⟨hturns.trans h.same, ?_, ?_, ?_, ?_, ?_⟩
  · rw [since_other hconsultation]
    omega
  · have hsplit : s'.turn - since start log = (s.turn - since start log) + count := by omega
    have hfirst : since start log + (s.turn - since start log) = s.turn := by omega
    rw [since_other hconsultation, hpending, h.same, h.pending, hsplit, Hoglake.lastHint_add, hfirst]
    rfl
  · rw [latestAttempt_attempt hattempt]
    exact fun hnone => absurd hnone (Option.some_ne_none i)
  · rw [latestAttempt_attempt hattempt, since_other hconsultation]
    rintro _ ⟨rfl⟩
    rw [hbefore, hafter]
    exact ⟨by omega, rfl, Or.inl hle⟩
  · refine split_concat h.reads fun seconds hcall => ?_
    rw [isConsultation, hcall] at hconsultation
    cases hconsultation

/-! ## A whole life -/

theorem ends_of_world {ε W α : Type} {P : W → Prop} {r : Main.Outcome ε α × W} (h : P r.2) :
    Main.Ends r (fun _ => P) P P := by
  rcases r with ⟨outcome, w⟩
  cases outcome <;> exact h

theorem write_heard (pod : Pod E V) (table : Main.Table) (args : Option Main.WriteArgs) (s : State E V) :
    Hoglake.Heard s.sink (pod.write table args s).2.sink := by
  have hwrite := Hoglake.write_heard pod.sink pod.backend (pod.flushOf table args) s.sink
  unfold Prog.wp at hwrite
  unfold Pod.write
  dsimp only
  cases hrun : Hoglake.write pod.sink pod.backend (pod.flushOf table args) s.sink with
  | ok count sink =>
      rw [hrun] at hwrite
      exact hwrite
  | error r sink =>
      rw [hrun] at hwrite
      exact hwrite

/-- **Every call of the loop keeps track.** -/
theorem observer_tracked (pod : Pod E V) (turns : ℕ → Hoglake.Turn) (start : ℕ) :
    Main.Observer pod.runtime.logged pod.loop (fun _ _ _ => True)
      (fun _ w => Tracked turns start w.1 w.2) (fun _ w => Tracked turns start w.1 w.2) where
  weaken := fun _ _ h => h
  aside := by
    rintro _ _ _ haside h
    cases haside with
    | sleep delay w => exact (h.aside rfl rfl).still rfl rfl rfl
    | uniform upper w => exact (h.aside rfl rfl).still rfl rfl rfl
    | consume count timeout w => exact h.still rfl rfl rfl
    | attempt call w => exact h.still rfl rfl rfl
    | resetCaches w => exact (h.aside rfl rfl).still rfl rfl rfl
    | hint some_ w =>
        cases some_
        exact h.consult rfl rfl rfl rfl rfl
  event := fun _ _ _ _ h => h
  write := by
    intro _ w batch offsets trigger _ h
    refine ends_of_world (P := fun w' : State E V × Log Hoglake.Raised (State E V) =>
      Tracked turns start w'.1 w'.2) ?_
    exact h.write rfl rfl rfl (write_heard pod batch _ w.1)
  commit := by
    intro _ w offsets h
    refine ends_of_world (P := fun w' : State E V × Log Hoglake.Raised (State E V) =>
      Tracked turns start w'.1 w'.2) ?_
    exact h.still rfl rfl rfl

/-- The responses of an attempt left no hint. -/
theorem lastHint_during {attempt : Interaction Hoglake.Raised (State E V)}
    (hle : attempt.before.turn ≤ attempt.after.turn)
    (h : lastHint turns attempt.before.turn (attempt.after.turn - attempt.before.turn) = none) (n : ℕ)
    (hn : During attempt n) : hintOf (turns n) = none := by
  obtain ⟨hfirst, hlast⟩ := hn
  exact Hoglake.lastHint_eq_none_iff.1 h n hfirst (by omega)

/-- A hint that is read is the attempt's own, if and only if none was stale. -/
theorem Reads.own_iff {before : Log Hoglake.Raised (State E V)} {seconds : Option ℚ}
    (h : Reads turns start before seconds) :
    (∀ value, seconds = some value →
        ∃ attempt ∈ latestAttempt before, ∃ n, During attempt n ∧ hintOf (turns n) = some value) ↔
      ∀ attempt ∈ latestAttempt before, (∃ n, During attempt n ∧ hintOf (turns n) ≠ none) ∨
        ∀ n, since start before ≤ n → n < attempt.before.turn → hintOf (turns n) = none := by
  obtain ⟨hidle, hlatest⟩ := h
  cases hattempt : latestAttempt before with
  | none =>
      refine iff_of_true (fun value hvalue => ?_) (fun attempt h => absurd h (Option.not_mem_none _))
      rw [hidle hattempt] at hvalue
      cases hvalue
  | some attempt =>
      obtain ⟨hle, ⟨hsince, hseconds⟩ | ⟨hsince, hseconds⟩⟩ := hlatest attempt hattempt
      · cases hown : lastHint turns attempt.before.turn (attempt.after.turn - attempt.before.turn) with
        | some value =>
            -- the attempt has its own, and it is what is read
            obtain ⟨n, hfirst, hlast, hn⟩ := Hoglake.exists_of_lastHint hown
            have hduring : During attempt n := ⟨hfirst, by omega⟩
            rw [hown, Option.some_or] at hseconds
            refine iff_of_true (fun value' hvalue => ⟨attempt, rfl, n, hduring, ?_⟩) ?_
            · exact hn.trans (hseconds.symm.trans hvalue)
            · rintro _ ⟨rfl⟩
              exact Or.inl ⟨n, hduring, fun hnone => Option.some_ne_none value (hn.symm.trans hnone)⟩
        | none =>
            have hquiet := lastHint_during hle hown
            rw [hown, Option.none_or] at hseconds
            have hstale : seconds = none ↔ ∀ n, since start before ≤ n → n < attempt.before.turn →
                hintOf (turns n) = none := by
              have hend : since start before + (attempt.before.turn - since start before)
                  = attempt.before.turn := by omega
              rw [hseconds, Hoglake.lastHint_eq_none_iff, hend]
            constructor
            · rintro hread _ ⟨rfl⟩
              refine Or.inr (hstale.1 (Option.eq_none_iff_forall_not_mem.2 fun value hvalue => ?_))
              obtain ⟨_, ⟨rfl⟩, n, hduring, hn⟩ := hread value hvalue
              exact Option.some_ne_none value (hn.symm.trans (hquiet n hduring))
            · intro hfresh value hvalue
              rcases hfresh attempt rfl with ⟨n, hduring, hn⟩ | hnone
              · exact absurd (hquiet n hduring) hn
              · exact absurd (hvalue.symm.trans (hstale.2 hnone)) (Option.some_ne_none value)
      · refine iff_of_true (fun value hvalue => ?_) ?_
        · exact absurd (hvalue.symm.trans hseconds) (Option.some_ne_none value)
        · rintro _ ⟨rfl⟩
          exact Or.inr fun n hfirst hlast => by omega

/-- **A process uses hints for their own failures, if and only if none is stale when one is read.** -/
theorem ownHints_iff (pod : Pod E V) (env : E) (broker : Main.Key → ℕ) (world : Hoglake.World Msg)
    (n : ℕ) : OwnHints world.turns (pod.log ⟨.boot env broker world, n⟩) ↔
      NoStaleHints world.turns world.turn (pod.log ⟨.boot env broker world, n⟩) := by
  have hboot : Tracked world.turns world.turn (State.boot (V := V) env broker world) [] := by
    refine ⟨rfl, le_rfl, ?_, fun _ => rfl, fun _ h => absurd h (Option.not_mem_none _), ?_⟩
    · show none = lastHint _ _ (world.turn - world.turn)
      rw [Nat.sub_self]
      rfl
    · exact fun before i after heq => absurd heq (by simp)
  have htracked : Tracked world.turns world.turn _ (pod.log ⟨.boot env broker world, n⟩) :=
    (observer_tracked pod world.turns world.turn).runMain_any (State.boot env broker world, []) n hboot
  constructor
  · intro hown before i after heq hconsultation
    obtain ⟨seconds, hcall⟩ : ∃ seconds, i.call = .hint seconds := by
      unfold isConsultation at hconsultation
      cases hcall : i.call <;> rw [hcall] at hconsultation <;> first | exact ⟨_, rfl⟩ | cases hconsultation
    refine (htracked.reads before i after heq seconds hcall).own_iff.1 fun value hvalue => ?_
    exact hown before i after heq value (hvalue ▸ hcall)
  · intro hstale before i after heq seconds hcall
    have hconsultation : isConsultation i = true := by rw [isConsultation, hcall]
    exact (htracked.reads before i after heq _ hcall).own_iff.2 (hstale before i after heq hconsultation)
      seconds rfl

/-! ## A hint of an earlier flush -/

/-- A hint is read here that no response of the latest attempt carried. -/
def isStale (turns : ℕ → Hoglake.Turn) (before : Log Hoglake.Raised (State E V))
    (i : Interaction Hoglake.Raised (State E V)) : Bool :=
  match i.call with
  | .hint (some seconds) => (latestAttempt before).all fun attempt =>
      (List.range attempt.after.turn).all fun n =>
        decide (n < attempt.before.turn) || decide (hintOf (turns n) ≠ some seconds)
  | _ => false

theorem not_ownHints_of_isStale {k : ℕ} (h : (log[k]?.any (isStale turns (log.take k))) = true) :
    ¬ OwnHints turns log := by
  intro hown
  cases hget : log[k]? with
  | none =>
      rw [hget] at h
      cases h
  | some i =>
      rw [hget, Option.any_some] at h
      obtain ⟨hk, hi⟩ := List.getElem?_eq_some_iff.1 hget
      have hsplit : log = log.take k ++ i :: log.drop (k + 1) := by
        rw [← hi, ← List.drop_eq_getElem_cons hk, List.take_append_drop]
      unfold isStale at h
      split at h
      · next seconds hcall =>
          obtain ⟨attempt, hlatest, n, ⟨hfirst, hlast⟩, hn⟩ := hown _ i _ hsplit seconds hcall
          rw [Option.mem_def.1 hlatest, Option.all_some, List.all_eq_true] at h
          have hno := h n (List.mem_range.2 hlast)
          rw [Bool.or_eq_true, decide_eq_true_eq, decide_eq_true_eq] at hno
          rcases hno with hbefore | hno
          · omega
          · exact hno hn
      · cases h

theorem demo_withinBudget_two : Config.hoglakeWorstCaseFlushS 2 30 ≤ Config.livenessBudgetS := by
  norm_num [Config.hoglakeWorstCaseFlushS, Config.prepareAllowanceS, Config.livenessBudgetS,
    Config.backoffStep, Config.backoffBaseS, Config.backoffCapS, Config.backoffJitter]

/-- Two attempts for each flush, of a column that the table does not have. -/
def addingPod : Pod Feed ℕ :=
  { demoPod "w" with retry := ⟨2, 30, Nat.two_pos, demo_timeoutS_pos, demo_withinBudget_two⟩ }

/-- The first `add_column` is refused with a hint of 17 seconds, and the commit of the second flush gets no
    answer. -/
def leftoverWorld : Hoglake.World Msg :=
  { demoWorld with
    turns := fun n =>
      { Hoglake.demoTurn [] (if n = 3 then .refused ⟨.hoglake, some 503, "commit queue timeout", none⟩
          else if n = 8 then .lost .never else .answered) with
        retryAfter := if n = 3 then some 17 else none } }

/-- Two records, polled one after the other. -/
def leftoverLife : Lifetime Feed ℕ :=
  ⟨.boot ⟨[[record 0 1], [record 1 1]], [[1]]⟩ (fun _ => 0) leftoverWorld, 2⟩

/-- The first flush goes through without the column; the second one waits 17 seconds. -/
theorem leftover_hint_used : ¬ OwnHints leftoverWorld.turns (addingPod.log leftoverLife) := by
  have hstale : ((addingPod.log leftoverLife)[2]?.any
      (isStale leftoverWorld.turns ((addingPod.log leftoverLife).take 2))) = true := by decide +kernel
  exact not_ownHints_of_isStale hstale

end Millpond.Restart
