import AntRuntime.BigInt.Passes
import AntRuntime.Numeral.TrialQuotient

/-!
# One quotient digit

The trial digit of `bigint_divmod_abs_limbs` and the round of the main loop
that uses it.  The correction loop compares `qhat * v₀` with the two-limb
number `rhat : u₀`, and the left shift building that number discards the bits
of `rhat` above the limb size.  `rhat` has such a bit only when the estimate
was clamped; `TrialOverflow` singles out the windows on which the discarded
bit makes the loop lower a digit that was right.
-/

namespace AntRuntime.BigInt

open Numeral UInt32

/-- A divisor or window split at its leading limbs, the weight of the
remaining limbs being `weight`. -/
structure LeadingLimbs where
  /-- Weight of the limb below the inspected ones. -/
  weight : Nat
  /-- Leading divisor limb. -/
  vTop : UInt32
  /-- Second divisor limb. -/
  vNext : UInt32
  /-- Remaining divisor limbs. -/
  vLow : Nat
  /-- Leading window limb. -/
  uTop : UInt32
  /-- Second window limb. -/
  uMid : UInt32
  /-- Third window limb. -/
  uNext : UInt32
  /-- Remaining window limbs. -/
  uLow : Nat
  /-- The remaining divisor limbs stay below the weight. -/
  vLow_lt : vLow < weight
  /-- The remaining window limbs stay below the weight. -/
  uLow_lt : uLow < weight
  /-- The divisor has a nonzero leading limb. -/
  vTop_pos : 0 < vTop.toNat

namespace LeadingLimbs

/-- The divisor. -/
def divisor (limbs : LeadingLimbs) : Nat :=
  (limbs.vTop.toNat * 2 ^ 32 + limbs.vNext.toNat) * limbs.weight + limbs.vLow

/-- The window, one limb longer than the divisor. -/
def window (limbs : LeadingLimbs) : Nat :=
  ((limbs.uTop.toNat * 2 ^ 32 + limbs.uMid.toNat) * 2 ^ 32 +
    limbs.uNext.toNat) * limbs.weight + limbs.uLow

/-- The window on which the truncated test lowers a correct digit: the leading
limbs agree, so the estimate is clamped and leaves `rhat = w₁ + v₁`; this
value does not fit a limb; the test fails once the overflowing bit is gone;
and the true digit is the clamped one. -/
def TrialOverflow (limbs : LeadingLimbs) : Prop :=
  limbs.uTop = limbs.vTop ∧ 2 ^ 32 ≤ limbs.uMid.toNat + limbs.vTop.toNat ∧
    (limbs.uMid.toNat + limbs.vTop.toNat - 2 ^ 32) * 2 ^ 32 + limbs.uNext.toNat <
      (2 ^ 32 - 1) * limbs.vNext.toNat ∧
    limbs.window / limbs.divisor = 2 ^ 32 - 1

theorem divisor_pos (limbs : LeadingLimbs) : 0 < limbs.divisor := by
  have weight_pos : 0 < limbs.weight := Nat.zero_lt_of_lt limbs.vLow_lt
  have leading_pos := limbs.vTop_pos
  unfold divisor
  have : 0 < (limbs.vTop.toNat * 2 ^ 32 + limbs.vNext.toNat) * limbs.weight :=
    Nat.mul_pos (by omega) weight_pos
  omega

/-- A window below `divisor * 2 ^ 32` has no larger leading limb than the
divisor. -/
theorem uTop_le_vTop (limbs : LeadingLimbs) (window_lt : limbs.window < limbs.divisor * 2 ^ 32) :
    limbs.uTop.toNat ≤ limbs.vTop.toNat := by
  have next_le := Nat.mul_le_mul_right limbs.weight
    (show limbs.vNext.toNat + 1 ≤ 2 ^ 32 from limbs.vNext.toNat_lt)
  have low_lt := limbs.vLow_lt
  have lower : limbs.uTop.toNat * (2 ^ 32 * 2 ^ 32 * limbs.weight) ≤ limbs.window := by
    unfold window
    ring_nf
    omega
  have upper : limbs.divisor * 2 ^ 32 <
      (limbs.vTop.toNat + 1) * (2 ^ 32 * 2 ^ 32 * limbs.weight) := by
    unfold divisor
    ring_nf at next_le ⊢
    omega
  exact Nat.le_of_lt_succ (Nat.lt_of_mul_lt_mul_right (lower.trans_lt (window_lt.trans upper)))

theorem toNat_ofNat_limb {value : Nat} (small : value < 2 ^ 32) :
    (UInt64.ofNat value).toNat = value :=
  UInt64.toNat_ofNat_of_lt' (Nat.lt_trans small (by decide))

section

variable (limbs : LeadingLimbs)
include limbs

/-- The test of the correction loop, on the bits of the remainder that the shift keeps. -/
theorem test_iff {qhat : Nat} (rhat : UInt64) (qhat_lt : qhat < 2 ^ 32) :
    UInt64.ofNat qhat * limbs.vNext.toUInt64 > (rhat <<< 32) ||| limbs.uNext.toUInt64 ↔
      rhat.toNat % 2 ^ 32 * 2 ^ 32 + limbs.uNext.toNat < qhat * limbs.vNext.toNat := by
  have product_value :
      (UInt64.ofNat qhat * limbs.vNext.toUInt64).toNat = qhat * limbs.vNext.toNat := by
    have next_lt := limbs.vNext.toNat_lt
    rw [UInt64.toNat_mul, toNat_ofNat_limb qhat_lt, toNat_toUInt64]
    apply Nat.mod_eq_of_lt
    have := Nat.mul_le_mul (show qhat ≤ 2 ^ 32 - 1 by omega)
      (show limbs.vNext.toNat ≤ 2 ^ 32 - 1 by omega)
    omega
  rw [gt_iff_lt, UInt64.lt_iff_toNat_lt, product_value, toNat_shiftLeft_or, Nat.mul_comm (2 ^ 32)]

/-- A guess that passes the exact test is at most one above the true digit. -/
theorem guess_le_of_passed (guess_le : guess ≤ 2 ^ 32)
    (estimate : guess * limbs.vTop.toNat + remainder = limbs.uTop.toNat * 2 ^ 32 + limbs.uMid.toNat)
    (passed : guess * limbs.vNext.toNat ≤ remainder * 2 ^ 32 + limbs.uNext.toNat) :
    guess ≤ limbs.window / limbs.divisor + 1 := by
  rw [← Nat.add_div_right _ limbs.divisor_pos, Nat.le_div_iff_mul_le limbs.divisor_pos]
  exact guess_mul_lt_window_add_divisor limbs.divisor limbs.window rfl rfl limbs.vLow_lt
    limbs.vTop_pos guess_le estimate passed

/-- The correction loop started without overflow stops at the true digit or
one above it. -/
theorem correctTrial_bounds (qhat_lt : qhat < 2 ^ 32) (rhat_lt : rhat.toNat < 2 ^ 32)
    (estimate : qhat * limbs.vTop.toNat + rhat.toNat = limbs.uTop.toNat * 2 ^ 32 + limbs.uMid.toNat)
    (digit_le : limbs.window / limbs.divisor ≤ qhat) :
    let digit := correctTrial limbs.vTop limbs.vNext limbs.uNext qhat rhat
    limbs.window / limbs.divisor ≤ digit.toNat ∧
      digit.toNat ≤ limbs.window / limbs.divisor + 1 ∧ digit.toNat < 2 ^ 32 := by
  intro digit
  induction qhat generalizing rhat with
  | zero =>
    have zero_value : digit.toNat = 0 := rfl
    rw [zero_value]
    exact ⟨digit_le, Nat.zero_le _, by norm_num⟩
  | succ qhat ih =>
    have test_iff := limbs.test_iff rhat qhat_lt
    rw [Nat.mod_eq_of_lt rhat_lt] at test_iff
    by_cases failed : rhat.toNat * 2 ^ 32 + limbs.uNext.toNat < (qhat + 1) * limbs.vNext.toNat
    · have overshoot := window_lt_guess_mul_of_test_failed limbs.divisor limbs.window
        rfl rfl limbs.uLow_lt estimate failed
      have lowered : limbs.window / limbs.divisor ≤ qhat := by
        have := (Nat.div_lt_iff_lt_mul limbs.divisor_pos).mpr overshoot
        omega
      have vTop_lt := limbs.vTop.toNat_lt
      have rhat_value : (rhat + limbs.vTop.toUInt64).toNat = rhat.toNat + limbs.vTop.toNat := by
        rw [UInt64.toNat_add, toNat_toUInt64]
        omega
      have lowered_estimate : qhat * limbs.vTop.toNat + (rhat + limbs.vTop.toUInt64).toNat =
            limbs.uTop.toNat * 2 ^ 32 + limbs.uMid.toNat := by
        rw [rhat_value, ← estimate]
        ring
      have unfolded : digit = if rhat + limbs.vTop.toUInt64 ≥ 0x100000000 then UInt64.ofNat qhat
          else correctTrial limbs.vTop limbs.vNext limbs.uNext qhat
            (rhat + limbs.vTop.toUInt64) := by
        simp only [digit, correctTrial]
        rw [if_pos (test_iff.mpr failed)]
      have stop_iff : rhat + limbs.vTop.toUInt64 ≥ 0x100000000 ↔
          2 ^ 32 ≤ (rhat + limbs.vTop.toUInt64).toNat := UInt64.le_iff_toNat_le
      by_cases stop : 2 ^ 32 ≤ (rhat + limbs.vTop.toUInt64).toNat
      · rw [unfolded, if_pos (stop_iff.mpr stop), toNat_ofNat_limb (by omega)]
        -- A remainder beyond the limb size passes the exact test.
        have passed : qhat * limbs.vNext.toNat ≤ (rhat + limbs.vTop.toUInt64).toNat * 2 ^ 32 +
              limbs.uNext.toNat := by
          have := Nat.mul_le_mul (show qhat ≤ 2 ^ 32 by omega) limbs.vNext.toNat_lt.le
          omega
        exact ⟨lowered, limbs.guess_le_of_passed (by omega) lowered_estimate passed, by omega⟩
      · have continued := ih (by omega) (by omega) lowered_estimate lowered
        rw [unfolded, if_neg (fun h => stop (stop_iff.mp h))]
        exact continued
    · have unfolded : digit = UInt64.ofNat (qhat + 1) := by
        simp only [digit, correctTrial]
        rw [if_neg (fun h => failed (test_iff.mp h))]
      rw [unfolded, toNat_ofNat_limb qhat_lt]
      exact ⟨digit_le, limbs.guess_le_of_passed (by omega) estimate (by omega), qhat_lt⟩

/-- The correction loop started with an overflowing remainder makes a single
truncated test. -/
theorem correctTrial_of_overflow (overflow : 2 ^ 32 ≤ rhat.toNat) (rhat_lt : rhat.toNat < 2 ^ 33) :
    correctTrial limbs.vTop limbs.vNext limbs.uNext (2 ^ 32 - 1) rhat =
      if (rhat.toNat - 2 ^ 32) * 2 ^ 32 + limbs.uNext.toNat <
          (2 ^ 32 - 1) * limbs.vNext.toNat then
        UInt64.ofNat (2 ^ 32 - 2)
      else UInt64.ofNat (2 ^ 32 - 1) := by
  have vTop_lt := limbs.vTop.toNat_lt
  have stop : rhat + limbs.vTop.toUInt64 ≥ 0x100000000 := by
    apply UInt64.le_iff_toNat_le.mpr
    rw [UInt64.toNat_add, toNat_toUInt64]
    have base_value : UInt64.toNat 0x100000000 = 2 ^ 32 := rfl
    omega
  have unfolded := correctTrial.eq_2 limbs.vTop limbs.vNext limbs.uNext rhat (2 ^ 32 - 2)
  rw [if_pos stop] at unfolded
  simp only [limbs.test_iff rhat (show 2 ^ 32 - 2 + 1 < 2 ^ 32 by omega),
    show rhat.toNat % 2 ^ 32 = rhat.toNat - 2 ^ 32 by omega] at unfolded
  exact unfolded

/-- The trial digit is a correction of an exact estimate, which is clamped exactly if the leading
limbs agree. -/
theorem trialDigit_eq (top_le : limbs.uTop.toNat ≤ limbs.vTop.toNat) :
    ∃ (qhat : Nat) (rhat : UInt64),
      trialDigit limbs.vTop limbs.vNext limbs.uTop limbs.uMid limbs.uNext =
        correctTrial limbs.vTop limbs.vNext limbs.uNext qhat rhat ∧
      qhat < 2 ^ 32 ∧
      qhat * limbs.vTop.toNat + rhat.toNat = limbs.uTop.toNat * 2 ^ 32 + limbs.uMid.toNat ∧
      (limbs.uTop = limbs.vTop ∧ qhat = 2 ^ 32 - 1 ∨
        limbs.uTop ≠ limbs.vTop ∧ rhat.toNat < limbs.vTop.toNat) := by
  have vTop_lt := limbs.vTop.toNat_lt
  have uMid_lt := limbs.uMid.toNat_lt
  have numerator_value := toNat_shiftLeft_or limbs.uTop.toUInt64 limbs.uMid
  rw [toNat_toUInt64, Nat.mod_eq_of_lt limbs.uTop.toNat_lt, Nat.mul_comm] at numerator_value
  have quotient := Nat.div_add_mod (limbs.uTop.toNat * 2 ^ 32 + limbs.uMid.toNat) limbs.vTop.toNat
  have remainder_lt := Nat.mod_lt (limbs.uTop.toNat * 2 ^ 32 + limbs.uMid.toNat) limbs.vTop_pos
  unfold trialDigit
  have base_value : UInt64.toNat 0x100000000 = 2 ^ 32 := rfl
  dsimp only
  split_ifs with large
  · rw [ge_iff_le, UInt64.le_iff_toNat_le, UInt64.toNat_div, toNat_toUInt64, base_value,
      Nat.le_div_iff_mul_le limbs.vTop_pos] at large
    have clamped : limbs.uTop.toNat = limbs.vTop.toNat := by omega
    have clamp_value : ((0x100000000 : UInt64) - 1).toNat = 2 ^ 32 - 1 := rfl
    refine ⟨_, _, rfl, by omega, ?_, Or.inl ⟨UInt32.toNat_inj.mp clamped, clamp_value⟩⟩
    rw [clamp_value, UInt64.toNat_sub, UInt64.toNat_mul, clamp_value, toNat_toUInt64]
    omega
  · rw [ge_iff_le, UInt64.le_iff_toNat_le, UInt64.toNat_div, toNat_toUInt64,
      numerator_value, base_value, Nat.le_div_iff_mul_le limbs.vTop_pos] at large
    have different : limbs.uTop ≠ limbs.vTop := by
      intro same
      rw [same] at large
      omega
    rw [← numerator_value] at quotient remainder_lt
    refine ⟨_, _, rfl, ?_, ?_, Or.inr ⟨different, ?_⟩⟩
    · rw [UInt64.toNat_div, toNat_toUInt64, Nat.div_lt_iff_lt_mul limbs.vTop_pos]
      omega
    · rw [UInt64.toNat_mod, ← numerator_value, Nat.mul_comm]
      exact quotient
    · rwa [UInt64.toNat_mod]

/-- The trial digit is the true digit or one above it, except on an overflowing window, where it
is one below. -/
theorem trialDigit_bounds (window_lt : limbs.window < limbs.divisor * 2 ^ 32) :
    let digit := trialDigit limbs.vTop limbs.vNext limbs.uTop limbs.uMid limbs.uNext
    digit.toNat < 2 ^ 32 ∧
      (limbs.TrialOverflow →
        digit.toNat + 1 = limbs.window / limbs.divisor) ∧
      (¬limbs.TrialOverflow →
        limbs.window / limbs.divisor ≤ digit.toNat ∧
          digit.toNat ≤ limbs.window / limbs.divisor + 1) := by
  intro digit
  obtain ⟨qhat, rhat, digit_eq, qhat_lt, estimate, clamped⟩ :=
    limbs.trialDigit_eq (limbs.uTop_le_vTop window_lt)
  have vTop_lt := limbs.vTop.toNat_lt
  have digit_lt : limbs.window / limbs.divisor < 2 ^ 32 := by
    rw [Nat.div_lt_iff_lt_mul limbs.divisor_pos, Nat.mul_comm]
    exact window_lt
  have digit_le : limbs.window / limbs.divisor ≤ qhat := by
    rcases clamped with ⟨-, rfl⟩ | ⟨-, rhat_lt⟩
    · omega
    · have upper := window_lt_succ_guess_mul limbs.divisor limbs.window rfl rfl
        limbs.uNext.toNat_lt limbs.uLow_lt estimate rhat_lt
      exact Nat.lt_succ_iff.mp ((Nat.div_lt_iff_lt_mul limbs.divisor_pos).mpr upper)
  have rhat_value (same : limbs.uTop = limbs.vTop) (isClamp : qhat = 2 ^ 32 - 1) :
      rhat.toNat = limbs.uMid.toNat + limbs.vTop.toNat := by
    rw [isClamp, same] at estimate
    omega
  by_cases overflow : 2 ^ 32 ≤ rhat.toNat
  · obtain ⟨same, rfl⟩ := clamped.resolve_right fun unclamped => by omega
    have uMid_lt := limbs.uMid.toNat_lt
    have vNext_lt := limbs.vNext.toNat_lt
    have passed : (2 ^ 32 - 1) * limbs.vNext.toNat ≤
        rhat.toNat * 2 ^ 32 + limbs.uNext.toNat := by omega
    have bound := limbs.guess_le_of_passed (by omega) estimate passed
    have overflow_iff : limbs.TrialOverflow ↔
        (rhat.toNat - 2 ^ 32) * 2 ^ 32 + limbs.uNext.toNat < (2 ^ 32 - 1) * limbs.vNext.toNat ∧
          limbs.window / limbs.divisor = 2 ^ 32 - 1 := by
      rw [TrialOverflow, ← rhat_value same rfl]
      simp only [same, overflow, true_and]
    rw [correctTrial_of_overflow limbs overflow (by have := rhat_value same rfl; omega)] at digit_eq
    have low_value : (UInt64.ofNat (2 ^ 32 - 2)).toNat = 2 ^ 32 - 2 := rfl
    have high_value : (UInt64.ofNat (2 ^ 32 - 1)).toNat = 2 ^ 32 - 1 := rfl
    rw [overflow_iff, show digit = _ from digit_eq]
    split_ifs <;> omega
  · have noOverflow : ¬limbs.TrialOverflow := by
      rintro ⟨same, large, -⟩
      rcases clamped with ⟨-, isClamp⟩ | ⟨different, -⟩
      · exact overflow (rhat_value same isClamp ▸ large)
      · exact different same
    have bounds := correctTrial_bounds limbs qhat_lt (by omega) estimate digit_le
    rw [← digit_eq] at bounds
    exact ⟨bounds.2.2, fun overflow => absurd overflow noOverflow, fun _ => ⟨bounds.1, bounds.2.1⟩⟩

end

end LeadingLimbs

end AntRuntime.BigInt
