import Mathlib.Algebra.Group.Nat.Defs
import Mathlib.Data.Nat.Notation
import Parley.Retry

/-!
# The delays of a policy

How long a publish waits between its attempts, and how many attempts it has. A policy `Fits` if its longest delay,
with the greatest random part, is a length of time; then no delay is cut off (`Fits.backoff_nanos`), and each can be
waited for (`Fits.waits`).
-/

namespace Parley.RetryPolicy

variable {p : RetryPolicy}

/-! ### Attempts -/

/-- How many attempts a publish has, one at least. -/
def budget (p : RetryPolicy) : ℕ := max 1 p.maxAttempts.toNat

theorem one_le_budget (p : RetryPolicy) : 1 ≤ p.budget := Nat.le_max_left _ _

/-- The number of an attempt that is not the last is not the greatest there is. -/
theorem toNat_succ {n : UInt32} (hn : ¬ p.maxAttempts ≤ n) : (n + 1).toNat = n.toNat + 1 := by
  have hlt : n.toNat < p.maxAttempts.toNat := Nat.lt_of_not_le fun h => hn (UInt32.le_iff_toNat_le.mpr h)
  have hmax := p.maxAttempts.toNat_lt
  rw [UInt32.toNat_add, UInt32.toNat_one]
  omega

/-! ### Delays -/

/-- Every delay of the policy is a length of time that can be waited for. -/
def Waits (p : RetryPolicy) : Prop := ∀ n draw, ¬ p.maxAttempts ≤ n → (p.backoff n).add? (p.jitter draw) ≠ none

/-- The longest delay of the policy is a length of time. -/
def Fits (p : RetryPolicy) : Prop := p.baseDelay.nanos * 2 ^ maxDoublings + p.maxJitter.nanos ≤ Duration.maxNanos

instance : Decidable p.Fits := inferInstanceAs (Decidable (_ ≤ _))

theorem pow_doublings_le (n : UInt32) : 2 ^ doublings n ≤ 2 ^ maxDoublings :=
  Nat.pow_le_pow_right (by decide) (Nat.min_le_right _ _)

/-- The delay of such a policy doubles and is nowhere cut off. -/
theorem Fits.backoff_nanos (h : p.Fits) (n : UInt32) : (p.backoff n).nanos = p.baseDelay.nanos * 2 ^ doublings n := by
  have hmul := Nat.mul_le_mul_left p.baseDelay.nanos (pow_doublings_le n)
  unfold Fits at h
  exact Nat.min_eq_left (by simp only [Nat.pow_eq]; omega)

theorem jitter_le (p : RetryPolicy) (draw : ℕ) : (p.jitter draw).nanos ≤ p.maxJitter.nanos := by
  have hdraw : draw % (p.jitterMillis + 1) < p.jitterMillis + 1 := Nat.mod_lt _ (Nat.succ_pos _)
  have hmillis : p.jitterMillis ≤ p.maxJitter.nanos / 1000000 := Nat.mod_le _ _
  have hnanos : (p.jitter draw).nanos ≤ draw % (p.jitterMillis + 1) * 1000000 := Nat.min_le_left _ _
  omega

theorem Fits.exists_delay (h : p.Fits) (n : UInt32) (draw : ℕ) : ∃ d, (p.backoff n).add? (p.jitter draw) = some d ∧
    (p.backoff n).nanos ≤ d.nanos ∧ d.nanos ≤ (p.backoff n).nanos + p.maxJitter.nanos := by
  have hjitter := p.jitter_le draw
  have hmul := Nat.mul_le_mul_left p.baseDelay.nanos (pow_doublings_le n)
  have hsum : (p.backoff n).nanos + (p.jitter draw).nanos ≤ Duration.maxNanos := by
    rw [h.backoff_nanos]
    unfold Fits at h
    omega
  refine ⟨_, dif_pos hsum, Nat.le_add_right _ _, ?_⟩
  show (p.backoff n).nanos + (p.jitter draw).nanos ≤ _
  omega

theorem Fits.waits (h : p.Fits) : p.Waits := by
  intro n draw _
  obtain ⟨d, hd, -⟩ := h.exists_delay n draw
  simp [hd]

theorem fits_default : default.Fits := by decide

example : default.Waits := fits_default.waits

end Parley.RetryPolicy
