import Mathlib.Algebra.Order.Field.Rat
import Mathlib.Algebra.BigOperators.Group.Finset.Basic
import Mathlib.Algebra.Order.BigOperators.Group.Finset
import Mathlib.Tactic.IntervalCases
import Mathlib.Tactic.Linarith
import Mathlib.Tactic.NormNum

set_option autoImplicit false

/-! # The liveness budget of a hoglake flush

The startup arithmetic that decides which retry budgets `config.load` accepts, and the runtime
deadline `_write_with_retry` reads. -/

namespace Millpond.Config

open Finset

/-! ## The arithmetic of `config.py` -/

def livenessBudgetS : ℚ := 480
def backoffBaseS : ℚ := 1
def backoffCapS : ℚ := 30
def backoffJitter : ℚ := 1 / 4
def prepareAllowanceS : ℚ := 20
def flushDeadlineMarginS : ℚ := 30

/-- The backoff before retry `attempt + 1`, without hint or jitter. -/
def backoffStep (attempt : ℕ) : ℚ := min (backoffBaseS * 2 ^ attempt) backoffCapS

/-- `_hoglake_worst_case_flush_s`. -/
def hoglakeWorstCaseFlushS (maxRetries : ℕ) (timeoutS : ℚ) : ℚ :=
  maxRetries * (timeoutS + prepareAllowanceS) +
    (∑ attempt ∈ range (maxRetries - 1), backoffStep attempt) * (1 + backoffJitter)

/-- `hoglake_flush_deadline`: the budget of one flush, and what to reserve for an attempt. -/
def hoglakeFlushDeadline (timeoutS : ℚ) : ℚ × ℚ :=
  (livenessBudgetS - flushDeadlineMarginS, timeoutS + prepareAllowanceS)

/-- The retry settings of a configuration `config.load` accepts: `_positive_int`,
    `_positive_float` and `_check_hoglake_liveness_budget`. -/
structure HoglakeRetry where
  maxRetries : ℕ
  timeoutS : ℚ
  maxRetries_pos : 0 < maxRetries
  timeoutS_pos : 0 < timeoutS
  withinBudget : hoglakeWorstCaseFlushS maxRetries timeoutS ≤ livenessBudgetS

/-- The per-attempt reservation. -/
def HoglakeRetry.attemptS (retry : HoglakeRetry) : ℚ := (hoglakeFlushDeadline retry.timeoutS).2

/-- The wall-clock budget of one flush. -/
def HoglakeRetry.deadlineS (retry : HoglakeRetry) : ℚ := (hoglakeFlushDeadline retry.timeoutS).1

/-- The longest a flush can keep the loop: a lone attempt has no check before it, and every later
    one starts early enough to finish by the deadline. -/
def HoglakeRetry.longestFlushS (retry : HoglakeRetry) : ℚ :=
  if retry.maxRetries = 1 then retry.attemptS
  else min retry.deadlineS
    (retry.maxRetries * retry.attemptS + backoffCapS * (retry.maxRetries - 1))

/-! ## What acceptance bounds -/

theorem HoglakeRetry.attemptS_eq (retry : HoglakeRetry) : retry.attemptS = retry.timeoutS + 20 :=
  rfl

theorem HoglakeRetry.deadlineS_eq (retry : HoglakeRetry) : retry.deadlineS = 450 := by
  show livenessBudgetS - flushDeadlineMarginS = 450
  norm_num [livenessBudgetS, flushDeadlineMarginS]

theorem backoffStep_nonneg (attempt : ℕ) : 0 ≤ backoffStep attempt :=
  le_min (by unfold backoffBaseS; positivity) (by norm_num [backoffCapS])

/-- The ladder of an accepted retry count, up to the eleventh step. -/
theorem ladder_ge {n : ℕ} (h : 11 ≤ n) : 211 ≤ ∑ attempt ∈ range n, backoffStep attempt := by
  have hsub : ∑ attempt ∈ range 11, backoffStep attempt
      ≤ ∑ attempt ∈ range n, backoffStep attempt :=
    sum_le_sum_of_subset_of_nonneg (range_mono h) (fun i _ _ => backoffStep_nonneg i)
  have h11 : ∑ attempt ∈ range 11, backoffStep attempt = 211 := by
    simp only [sum_range_succ, sum_range_zero, backoffStep, backoffBaseS, backoffCapS]
    norm_num
  linarith

/-- At most eleven attempts fit the startup budget. -/
theorem HoglakeRetry.maxRetries_lt (retry : HoglakeRetry) : retry.maxRetries < 12 := by
  by_contra h
  have h12 : 12 ≤ retry.maxRetries := Nat.le_of_not_lt h
  have hladder := ladder_ge (n := retry.maxRetries - 1) (by omega)
  have hcast : (12 : ℚ) ≤ retry.maxRetries := by exact_mod_cast h12
  have hbudget := retry.withinBudget
  have hpos := retry.timeoutS_pos
  unfold hoglakeWorstCaseFlushS livenessBudgetS prepareAllowanceS backoffJitter at hbudget
  have hmul : (12 : ℚ) * 20 ≤ retry.maxRetries * (retry.timeoutS + 20) := by gcongr; linarith
  linarith

/-- Before its last attempt an accepted budget leaves room for every gap at the cap. -/
theorem HoglakeRetry.gaps_fit (retry : HoglakeRetry) (h : retry.maxRetries ≠ 1) :
    retry.attemptS + backoffCapS * (retry.maxRetries - 1) ≤ retry.deadlineS := by
  have hlt := retry.maxRetries_lt
  have hpos := retry.maxRetries_pos
  have hbudget := retry.withinBudget
  have htimeout := retry.timeoutS_pos
  rw [retry.deadlineS_eq, retry.attemptS_eq]
  unfold hoglakeWorstCaseFlushS livenessBudgetS prepareAllowanceS backoffJitter at hbudget
  unfold backoffCapS
  generalize retry.maxRetries = n at *
  interval_cases n
  · exact absurd rfl h
  all_goals
    simp only [sum_range_succ, sum_range_zero, backoffStep, backoffBaseS, backoffCapS,
      Nat.reduceSub] at hbudget
    norm_num at hbudget ⊢
    linarith

end Millpond.Config
