import Millpond.Hoglake.Walk

set_option autoImplicit false

/-! # Retry-After hints

The response hook of the client keeps the hint of the latest refusal that has one. Over a whole `write`
that is the latest hint of its responses, or what was there before. -/

namespace Millpond.Hoglake

open Prog

variable {ρ V : Type}

/-- The hint that a response leaves. -/
def hintOf (turn : Turn) : Option ℚ := noteResponse turn none

theorem noteResponse_eq (turn : Turn) (old : Option ℚ) : noteResponse turn old = (hintOf turn).or old := by
  unfold hintOf noteResponse
  dsimp only
  split
  · split <;> rfl
  · rfl

/-- The latest hint of `count` responses from `first` on. -/
def lastHint (turns : ℕ → Turn) (first : ℕ) : ℕ → Option ℚ
  | 0 => none
  | count + 1 => (hintOf (turns (first + count))).or (lastHint turns first count)

variable {turns : ℕ → Turn} {first : ℕ}

theorem lastHint_add (count more : ℕ) : lastHint turns first (count + more)
    = (lastHint turns (first + count) more).or (lastHint turns first count) := by
  induction more with
  | zero => rfl
  | succ more ih =>
      rw [← Nat.add_assoc, lastHint, ih, lastHint, Nat.add_assoc, Option.or_assoc]

theorem lastHint_eq_none_iff {count : ℕ} : lastHint turns first count = none ↔
    ∀ n, first ≤ n → n < first + count → hintOf (turns n) = none := by
  induction count with
  | zero =>
      refine iff_of_true rfl fun n hle hlt => ?_
      omega
  | succ count ih =>
      rw [lastHint, Option.or_eq_none_iff, ih]
      constructor
      · rintro ⟨hlast, hrest⟩ n hle hlt
        rcases Nat.lt_succ_iff_lt_or_eq.1 hlt with hlt | rfl
        · exact hrest n hle hlt
        · exact hlast
      · intro h
        exact ⟨h _ (Nat.le_add_right _ _) (Nat.lt_succ_self _),
          fun n hle hlt => h n hle (Nat.lt_succ_of_lt hlt)⟩

theorem exists_of_lastHint {count : ℕ} {seconds : ℚ} (h : lastHint turns first count = some seconds) :
    ∃ n, first ≤ n ∧ n < first + count ∧ hintOf (turns n) = some seconds := by
  induction count with
  | zero => cases h
  | succ count ih =>
      rw [lastHint, Option.or_eq_some_iff] at h
      rcases h with hlast | ⟨_, hrest⟩
      · exact ⟨_, Nat.le_add_right _ _, Nat.lt_succ_self _, hlast⟩
      · obtain ⟨n, hle, hlt, hn⟩ := ih hrest
        exact ⟨n, hle, Nat.lt_succ_of_lt hlt, hn⟩

/-- From `s` to `s'` the responses passed that `retryAfter` tells of. -/
def Heard (s s' : St ρ) : Prop :=
  s'.world.turns = s.world.turns ∧ ∃ count, s'.world.turn = s.world.turn + count ∧
    s'.sink.retryAfter = (lastHint s.world.turns s.world.turn count).or s.sink.retryAfter

/-- No response. -/
theorem Heard.of_same {s s' : St ρ} (hturns : s'.world.turns = s.world.turns)
    (hturn : s'.world.turn = s.world.turn) (hsink : s'.sink.retryAfter = s.sink.retryAfter) :
    Heard s s' := ⟨hturns, 0, hturn, hsink⟩

theorem Heard.trans {s s' s'' : St ρ} (h : Heard s s') (h' : Heard s' s'') : Heard s s'' := by
  obtain ⟨hturns, count, hturn, hsink⟩ := h
  obtain ⟨hturns', more, hturn', hsink'⟩ := h'
  refine ⟨hturns'.trans hturns, count + more, by rw [hturn', hturn, Nat.add_assoc], ?_⟩
  rw [hsink', hsink, hturns, hturn, lastHint_add, Option.or_assoc]

/-- **A walk hears its responses.** -/
theorem tracks_heard (own : Payload → Prop) : Tracks (Heard : St ρ → St ρ → Prop) own where
  refl := fun _ => .of_same rfl rfl rfl
  trans := fun _ _ _ => Heard.trans
  turn := by
    intro s
    refine ⟨rfl, 1, rfl, ?_⟩
    show noteResponse _ _ = _
    rw [noteResponse_eq, lastHint, lastHint, Option.or_none]
    rfl
  sink := fun s f hf => .of_same rfl rfl (hf s.sink)
  logs := fun _ _ => .of_same rfl rfl rfl
  world := fun _ _ h => .of_same h.turns h.turn rfl
  commit := fun _ _ _ _ => .of_same rfl rfl rfl
  enqueue := fun _ _ _ => .of_same rfl rfl rfl

theorem write_heard (cfg : SinkConfig) (be : Backend ρ V) (flush : Flush ρ V) :
    Within Heard (write cfg be flush) :=
  (tracks_heard fun _ => True).walk_write flush

end Millpond.Hoglake
