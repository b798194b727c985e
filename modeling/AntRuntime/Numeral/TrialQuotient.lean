import Mathlib.Tactic.Ring
import Mathlib.Tactic.Linarith
import Mathlib.Algebra.Order.Ring.Nat

/-!
# Trial quotient digits

Long division in base `B` guesses each quotient digit from the leading digits
of the divisor and of the current window.  This module collects the facts that
make such a guess usable: a two-digit estimate never falls below the true
digit, a failed test on the third digit proves the guess too large, and a
passed test bounds the excess by one.

The divisor is `(v₁ B + v₀) P + vₗ` and the window is
`((w₂ B + w₁) B + w₀) P + wₗ`, where `P` is the weight of the digits that the
test does not inspect.
-/

namespace AntRuntime.Numeral

section TrialQuotient

variable (divisor window : Nat)

section

variable (divisor_eq : divisor = (v₁ * B + v₀) * P + vₗ)
  (window_eq : window = ((w₂ * B + w₁) * B + w₀) * P + wₗ)
include divisor_eq window_eq

/-- The estimate from two window digits and one divisor digit is never below
the true digit. -/
theorem window_lt_succ_guess_mul
    (third_lt : w₀ < B) (low_lt : wₗ < P) (estimate : guess * v₁ + remainder = w₂ * B + w₁)
    (remainder_lt : remainder < v₁) :
    window < (guess + 1) * divisor := by
  have leading : w₂ * B + w₁ + 1 ≤ (guess + 1) * v₁ := by
    rw [Nat.add_mul]
    omega
  have belowNext : window < (w₂ * B + w₁ + 1) * (B * P) := by
    have middle : (w₀ + 1) * P ≤ B * P := Nat.mul_le_mul_right P third_lt
    rw [window_eq]
    calc ((w₂ * B + w₁) * B + w₀) * P + wₗ
        < (w₂ * B + w₁) * (B * P) + (w₀ + 1) * P := by
          ring_nf
          omega
      _ ≤ (w₂ * B + w₁ + 1) * (B * P) := by
          rw [Nat.add_mul (w₂ * B + w₁) 1]
          omega
  calc window < (w₂ * B + w₁ + 1) * (B * P) := belowNext
    _ ≤ (guess + 1) * v₁ * (B * P) := Nat.mul_le_mul_right _ leading
    _ ≤ (guess + 1) * divisor := by
        rw [Nat.mul_assoc]
        apply Nat.mul_le_mul_left
        rw [divisor_eq]
        ring_nf
        omega

/-- A failed test on the third digit shows that the guess overshoots. -/
theorem window_lt_guess_mul_of_test_failed
    (low_lt : wₗ < P) (estimate : guess * v₁ + remainder = w₂ * B + w₁)
    (failed : remainder * B + w₀ < guess * v₀) :
    window < guess * divisor := by
  have tested : (remainder * B + w₀ + 1) * P ≤ guess * v₀ * P := Nat.mul_le_mul_right P failed
  have expanded : guess * divisor = guess * v₁ * (B * P) + guess * v₀ * P + guess * vₗ := by
    rw [divisor_eq]
    ring
  have split : window + P = guess * v₁ * (B * P) + (remainder * B + w₀ + 1) * P + wₗ := by
    rw [window_eq, ← estimate]
    ring
  omega

/-- A passed test on the third digit bounds the excess of the guess by one. -/
theorem guess_mul_lt_window_add_divisor
    (low_lt : vₗ < P) (leading_pos : 0 < v₁) (guess_le : guess ≤ B)
    (estimate : guess * v₁ + remainder = w₂ * B + w₁) (passed : guess * v₀ ≤ remainder * B + w₀) :
    guess * divisor ≤ window + divisor := by
  have tested : guess * v₀ * P ≤ (remainder * B + w₀) * P := Nat.mul_le_mul_right P passed
  have expanded : guess * divisor = guess * v₁ * (B * P) + guess * v₀ * P + guess * vₗ := by
    rw [divisor_eq]
    ring
  have split : window = guess * v₁ * (B * P) + (remainder * B + w₀) * P + wₗ := by
    rw [window_eq, ← estimate]
    ring
  have ignored : guess * vₗ ≤ divisor := by
    calc guess * vₗ ≤ B * P := Nat.mul_le_mul guess_le low_lt.le
      _ ≤ v₁ * (B * P) := Nat.le_mul_of_pos_left _ leading_pos
      _ ≤ divisor := by
          rw [divisor_eq]
          ring_nf
          omega
  omega

end

end TrialQuotient

end AntRuntime.Numeral
