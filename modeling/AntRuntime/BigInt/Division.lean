import AntRuntime.BigInt.LongDivision
import Mathlib.Tactic.Push

/-!
# BigInt division and remainder

`bigint_div` and `bigint_mod`, and the exact set of operands on which they
agree with truncated integer division.
-/

namespace AntRuntime.BigInt

open List

/-- `js_mkbigint_limbs` followed by `bigint_finish_payload`: strip leading zero
limbs and clear the sign of zero. -/
def mkBigintLimbs (limbs : List UInt32) (negative : Bool) : Payload where
  sign := if limbsIsZero (normalizeLimbs (if limbs = [] then [0] else limbs))
    then false else negative
  limbs := normalizeLimbs (if limbs = [] then [0] else limbs)
  nonempty := by
    apply normalizeLimbs_ne_nil
    split
    · simp
    · assumption
  normalized := normalizeLimbs_idem _
  zero_nonneg := by
    intro zero
    rw [zero]
    rfl

/-- `bigint_div`. -/
def bigintDiv (a b : Payload) : Except String Payload :=
  if limbsIsZero b.limbs then .error "Division by zero"
  else
    match divmodAbsLimbs a.limbs b.limbs with
    | none => .error "oom"
    | some (quot, _) =>
      let qneg := (a.sign != b.sign) && !limbsIsZero quot
      .ok (mkBigintLimbs quot qneg)

/-- `bigint_mod`. -/
def bigintMod (a b : Payload) : Except String Payload :=
  if limbsIsZero b.limbs then .error "Division by zero"
  else
    match divmodAbsLimbs a.limbs b.limbs with
    | none => .error "oom"
    | some (_, rem) =>
      let rneg := a.sign && !limbsIsZero rem
      .ok (mkBigintLimbs rem rneg)

/-! ### Signs -/

section

variable (limbs : List UInt32)
include limbs

theorem limbsIsZero_iff : limbsIsZero limbs = true ↔ limbs = [0] := by
  unfold limbsIsZero
  match limbs with
  | [] => simp
  | [limb] => simp
  | first :: second :: rest => simp

theorem magnitude_mkBigintLimbs (negative : Bool) :
    (mkBigintLimbs limbs negative).magnitude = limbsToNat limbs := by
  simp only [Payload.magnitude, mkBigintLimbs, limbsToNat_normalizeLimbs]
  split
  · next empty =>
      rw [empty]
      rfl
  · rfl

/-- The sign argument applies to the value, with no effect on zero. -/
theorem toInt_mkBigintLimbs (negative : Bool) :
    (mkBigintLimbs limbs negative).toInt =
      if negative then -(limbsToNat limbs : Int) else limbsToNat limbs := by
  have magnitude_eq := magnitude_mkBigintLimbs limbs negative
  rw [Payload.toInt, magnitude_eq]
  rw [Payload.magnitude] at magnitude_eq
  cases zero : limbsIsZero (mkBigintLimbs limbs negative).limbs with
  | false =>
    have sign_eq : (mkBigintLimbs limbs negative).sign = negative :=
      if_neg (Bool.eq_false_iff.mp zero)
    rw [sign_eq]
  | true =>
    rw [(limbsIsZero_iff _).mp zero] at magnitude_eq
    simp [← magnitude_eq]

theorem toInt_mkBigintLimbs_and (negative : Bool) :
    (mkBigintLimbs limbs (negative && !limbsIsZero limbs)).toInt =
      if negative then -(limbsToNat limbs : Int) else limbsToNat limbs := by
  rw [toInt_mkBigintLimbs]
  cases zero : limbsIsZero limbs with
  | false => simp
  | true =>
    rw [limbsIsZero_iff] at zero
    rw [zero]
    simp

end

theorem Payload.limbsIsZero_iff_toInt (value : Payload) :
    limbsIsZero value.limbs = true ↔ value.toInt = 0 := by
  rw [limbsIsZero_iff]
  constructor
  · intro zero
    simp [Payload.toInt, Payload.magnitude, zero]
  · intro zero
    have magnitude_zero : limbsToNat value.limbs = 0 := by
      unfold Payload.toInt Payload.magnitude at zero
      split at zero <;> omega
    have single : ¬1 < value.limbs.length := by
      intro several
      have larger := limbsToNat_take_lt_of_longer [] le_rfl
        (top_ne_zero_of_normalized value.normalized several) (Nat.zero_lt_of_lt several)
      rw [take_length, magnitude_zero] at larger
      exact Nat.not_lt_zero _ larger
    match limbs_eq : value.limbs with
    | [] => exact absurd limbs_eq value.nonempty
    | [limb] =>
      rw [limbs_eq] at magnitude_zero
      simp only [limbsToNat_cons] at magnitude_zero
      have limb_zero : limb = 0 := UInt32.toNat_inj.mp (by
        rw [UInt32.toNat_zero]
        omega)
      rw [limb_zero]
    | _ :: _ :: _ =>
      rw [limbs_eq] at single
      simp at single

theorem magnitude_pos_of_sign {value : Payload} (isNegative : value.sign = true) :
    0 < value.magnitude := by
  rcases Nat.eq_zero_or_pos value.magnitude with isZero | positive
  · have limbsZero : limbsIsZero value.limbs = true := by
      rw [Payload.limbsIsZero_iff_toInt, Payload.toInt, isZero]
      simp
    rw [value.zero_nonneg ((limbsIsZero_iff _).mp limbsZero)] at isNegative
    cases isNegative
  · exact positive

theorem Payload.natAbs_toInt (value : Payload) : value.toInt.natAbs = value.magnitude := by
  unfold Payload.toInt
  split_ifs <;> simp

/-- The sign of a BigInt is that of its integer. -/
theorem Payload.sign_eq (value : Payload) : value.sign = decide (value.toInt < 0) := by
  have positive := @magnitude_pos_of_sign value
  unfold Payload.toInt
  cases sign : value.sign with
  | false => simp
  | true => simp [positive sign]

/-! ### The normalising shift -/

theorem toNat_clz32Nonzero (limb : UInt32) :
    (clz32Nonzero limb).toNat = 31 - Nat.log2 limb.toNat := by
  unfold clz32Nonzero
  rw [UInt32.toNat_ofNat']
  omega

theorem clz32Nonzero_lt (limb : UInt32) : (clz32Nonzero limb).toNat < 32 := by
  rw [toNat_clz32Nonzero]
  omega

theorem log2_limb_le {limb : UInt32} (positive : limb.toNat ≠ 0) : Nat.log2 limb.toNat ≤ 31 :=
  Nat.le_of_lt_succ ((Nat.log2_lt positive).mpr limb.toNat_lt)

/-- After the shift the leading bit is set. -/
theorem two_pow_le_shifted {limb : UInt32} (nonzero : limb ≠ 0) :
    2 ^ 31 ≤ limb.toNat * 2 ^ (clz32Nonzero limb).toNat := by
  have positive : limb.toNat ≠ 0 := fun zero => nonzero (UInt32.toNat_inj.mp zero)
  have log_le := log2_limb_le positive
  have lower := Nat.log2_self_le positive
  rw [toNat_clz32Nonzero]
  calc 2 ^ 31 = 2 ^ Nat.log2 limb.toNat * 2 ^ (31 - Nat.log2 limb.toNat) := by
        rw [← Nat.pow_add, Nat.add_sub_cancel' log_le]
    _ ≤ limb.toNat * 2 ^ (31 - Nat.log2 limb.toNat) :=
        Nat.mul_le_mul_right _ lower

theorem limb_succ_mul_shift_le (nonzero : limb ≠ 0) :
    (limb.toNat + 1) * 2 ^ (clz32Nonzero limb).toNat ≤ 2 ^ 32 := by
  have log_le := log2_limb_le fun zero => nonzero (UInt32.toNat_inj.mp zero)
  rw [toNat_clz32Nonzero]
  calc (limb.toNat + 1) * 2 ^ (31 - Nat.log2 limb.toNat)
      ≤ 2 ^ (Nat.log2 limb.toNat + 1) * 2 ^ (31 - Nat.log2 limb.toNat) :=
        Nat.mul_le_mul_right _ Nat.lt_log2_self
    _ = 2 ^ 32 := by
        rw [← Nat.pow_add]
        congr 1
        omega

section Shift

variable {den : List UInt32} (nonempty : den ≠ [])
  (top_ne : den.getD (den.length - 1) 0 ≠ 0)

include nonempty in
/-- An array read from its leading limb. -/
theorem limbsToNat_eq_top :
    limbsToNat den = limbsToNat (den.take (den.length - 1)) +
      (2 ^ 32) ^ (den.length - 1) * (den.getD (den.length - 1) 0).toNat := by
  have positive := length_pos_iff.mpr nonempty
  rw [limbsToNat_split den (den.length - 1),
    drop_eq_getD_cons den (by omega), drop_eq_nil_of_le (by omega)]
  simp

include nonempty top_ne in
/-- The shifted divisor needs no further limb. -/
theorem limbsToNat_mul_shift_lt :
    limbsToNat den * 2 ^ (divisorShift den).toNat < (2 ^ 32) ^ den.length := by
  have positive := length_pos_iff.mpr nonempty
  have low_lt := limbsToNat_take_lt den (den.length - 1)
  have weight : ((2 : Nat) ^ 32) ^ den.length = (2 ^ 32) ^ (den.length - 1) * 2 ^ 32 := by
    rw [← pow_succ, Nat.sub_add_cancel positive]
  have top_le := limb_succ_mul_shift_le top_ne
  have scale_pos : 0 < 2 ^ (divisorShift den).toNat := by positivity
  rw [limbsToNat_eq_top nonempty, weight]
  calc _ < ((2 ^ 32) ^ (den.length - 1) * ((den.getD (den.length - 1) 0).toNat + 1)) *
          2 ^ (divisorShift den).toNat := by
        apply Nat.mul_lt_mul_of_pos_right _ scale_pos
        rw [Nat.mul_add]
        omega
    _ ≤ (2 ^ 32) ^ (den.length - 1) * 2 ^ 32 := by
        rw [Nat.mul_assoc]
        exact Nat.mul_le_mul_left _ top_le

include nonempty top_ne in
/-- The shifted divisor has its leading bit set. -/
theorem le_limbsToNat_mul_shift :
    (2 ^ 32) ^ (den.length - 1) * 2 ^ 31 ≤ limbsToNat den * 2 ^ (divisorShift den).toNat := by
  have top_ge := two_pow_le_shifted top_ne
  rw [limbsToNat_eq_top nonempty]
  calc (2 ^ 32) ^ (den.length - 1) * 2 ^ 31
      ≤ (2 ^ 32) ^ (den.length - 1) * ((den.getD (den.length - 1) 0).toNat *
          2 ^ (divisorShift den).toNat) := Nat.mul_le_mul_left _ top_ge
    _ ≤ _ := by
        rw [← Nat.mul_assoc]
        exact Nat.mul_le_mul_right _ (Nat.le_add_left _ _)

end Shift

section ShiftedOperands

variable (shift : UInt32) (shift_lt : shift.toNat < 32)

theorem length_shiftedDivisor (den : List UInt32) :
    (shiftedDivisor shift den).length = den.length := by
  unfold shiftedDivisor
  split
  · rfl
  · exact length_shiftLeftLoop _ _ _

theorem length_shiftedDividend (num : List UInt32) :
    (shiftedDividend shift num).length = num.length + 1 := by
  unfold shiftedDividend
  split
  · simp
  · simp [length_shiftLeftLoop]

include shift_lt in
theorem limbsToNat_shiftedDividend (num : List UInt32) :
    limbsToNat (shiftedDividend shift num) = limbsToNat num * 2 ^ shift.toNat := by
  unfold shiftedDividend
  split
  · next zero => simp [zero, limbsToNat_append]
  · have carry_lt : UInt32.toNat 0 < 2 ^ shift.toNat := Nat.pow_pos (by norm_num)
    obtain ⟨value, -⟩ := shiftLeftLoop_value shift_lt carry_lt num
    rw [limbsToNat_append, length_shiftLeftLoop]
    simpa using value

include shift_lt in
theorem limbsToNat_shiftedDivisor {den : List UInt32}
    (fits : limbsToNat den * 2 ^ shift.toNat < (2 ^ 32) ^ den.length) :
    limbsToNat (shiftedDivisor shift den) = limbsToNat den * 2 ^ shift.toNat := by
  unfold shiftedDivisor
  split
  · next zero => simp [zero]
  · have carry_lt : UInt32.toNat 0 < 2 ^ shift.toNat := Nat.pow_pos (by norm_num)
    obtain ⟨value, -⟩ := shiftLeftLoop_value shift_lt carry_lt den
    rw [UInt32.toNat_zero] at value
    -- A nonzero carry would exceed the space of the divisor.
    have no_carry : (shiftLeftLoop shift 0 den).2.toNat = 0 := by
      by_contra nonzero
      have := Nat.mul_le_mul_left ((2 ^ 32) ^ den.length) (Nat.one_le_iff_ne_zero.mpr nonzero)
      omega
    rw [no_carry] at value
    simpa using value

end ShiftedOperands

/-! ### Magnitudes -/

/-- No window of the division of the shifted magnitudes overflows the trial
test.  Division by a single limb makes no trial. -/
def NoTrialOverflow (a b : Payload) : Prop :=
  2 ≤ b.limbs.length → ∀ position, ¬WindowOverflows b.limbs.length
      (windowAt (a.magnitude * 2 ^ (divisorShift b.limbs).toNat)
        (b.magnitude * 2 ^ (divisorShift b.limbs).toNat) position)
      (b.magnitude * 2 ^ (divisorShift b.limbs).toNat)

/-- A window below the divisor does not overflow: its digit is zero. -/
theorem not_windowOverflows_of_lt {count window divisor : Nat} (lower : window < divisor) :
    ¬WindowOverflows count window divisor := by
  rintro ⟨-, -, -, digit⟩
  rw [Nat.div_eq_of_lt lower] at digit
  exact absurd digit (by norm_num)

/-- Windows above the leading digit lie below the divisor. -/
theorem windowAt_lt_of_le (start : Nat)
    (start_lt : dividend / (2 ^ 32) ^ start < divisor) (above : start ≤ position) :
    windowAt dividend divisor position < divisor := by
  apply Nat.lt_of_le_of_lt (Nat.mod_le _ _)
  apply Nat.lt_of_le_of_lt _ start_lt
  exact Nat.div_le_div_left (Nat.pow_le_pow_right (by norm_num) above) (Nat.pow_pos (by norm_num))

theorem noneOverflows_iff {count start dividend divisor : Nat}
    (start_lt : dividend / (2 ^ 32) ^ start < divisor) :
    NoneOverflows count dividend divisor start ↔
      ∀ position, ¬WindowOverflows count (windowAt dividend divisor position) divisor := by
  constructor
  · intro below position
    by_cases inside : position < start
    · exact below position inside
    · apply not_windowOverflows_of_lt
      exact windowAt_lt_of_le start start_lt (by omega)
  · intro all position _
    exact all position

/-- The remainder part of the array after the main loop. -/
theorem limbsToNat_take_of_lt {limbs : List UInt32} {count : Nat}
    (lower : limbsToNat limbs < (2 ^ 32) ^ count) :
    limbsToNat (limbs.take count) = limbsToNat limbs := by
  have split := limbsToNat_split limbs count
  rw [limbsToNat_drop, Nat.div_eq_of_lt lower] at split
  exact split.symm

section LongDivision

variable {num den : List UInt32} (several : 2 ≤ den.length)
  (top_ne : den.getD (den.length - 1) 0 ≠ 0)
  (longer : den.length ≤ num.length)

include several top_ne longer in
/-- The leading window of the shifted operands lies below the divisor. -/
theorem shifted_start_lt :
    limbsToNat num * 2 ^ (divisorShift den).toNat /
        (2 ^ 32) ^ (num.length - den.length + 1) <
      limbsToNat den * 2 ^ (divisorShift den).toNat := by
  have nonempty : den ≠ [] := length_pos_iff.mp (by omega)
  have num_lt := limbsToNat_lt num
  have shift_lt := clz32Nonzero_lt (den.getD (den.length - 1) 0)
  have scale_le : 2 ^ (divisorShift den).toNat ≤ 2 ^ 31 :=
    Nat.pow_le_pow_right (by norm_num) (Nat.le_of_lt_succ shift_lt)
  have weight : ((2 : Nat) ^ 32) ^ num.length =
      (2 ^ 32) ^ (num.length - den.length + 1) * (2 ^ 32) ^ (den.length - 1) := by
    rw [← pow_add]
    congr 1
    omega
  apply Nat.div_lt_of_lt_mul
  calc limbsToNat num * 2 ^ (divisorShift den).toNat
      < (2 ^ 32) ^ num.length * 2 ^ (divisorShift den).toNat :=
        Nat.mul_lt_mul_of_pos_right num_lt (Nat.pow_pos (by norm_num))
    _ ≤ (2 ^ 32) ^ num.length * 2 ^ 31 := Nat.mul_le_mul_left _ scale_le
    _ = (2 ^ 32) ^ (num.length - den.length + 1) * ((2 ^ 32) ^ (den.length - 1) * 2 ^ 31) := by
        rw [weight, Nat.mul_assoc]
    _ ≤ _ := Nat.mul_le_mul_left _ (le_limbsToNat_mul_shift nonempty top_ne)

/-- Undoing the shift of a multiple of the shift weight. -/
theorem limbsToNat_unshiftedRemainder (shift_lt : shift.toNat < 32) {rest : List UInt32}
    (rest_eq : limbsToNat rest = value * 2 ^ shift.toNat) :
    limbsToNat (unshiftedRemainder shift rest) = value := by
  unfold unshiftedRemainder
  split
  · next zero => simpa [zero] using rest_eq
  · next nonzero =>
      have shift_pos : 0 < shift.toNat := by
        rw [Nat.pos_iff_ne_zero]
        exact fun zero => nonzero (UInt32.toNat_inj.mp zero)
      obtain ⟨split, lost_lt⟩ := shiftRightLoop_value shift_pos shift_lt rest
      have scale_pos : 0 < 2 ^ shift.toNat := Nat.pow_pos (by norm_num)
      have quotient := congrArg (· / 2 ^ shift.toNat) (split.symm.trans rest_eq)
      rw [Nat.mul_div_cancel _ scale_pos, Nat.mul_comm,
        Nat.mul_add_div scale_pos, Nat.div_eq_of_lt lost_lt] at quotient
      exact quotient

include several top_ne longer in
/-- The main loop between the shifts. -/
theorem divideShifted_value :
    let result := divideLoop (shiftedDivisor (divisorShift den) den)
      (num.length - den.length + 1) (shiftedDividend (divisorShift den) num)
    let noOverflow := ∀ position, ¬WindowOverflows den.length
      (windowAt (limbsToNat num * 2 ^ (divisorShift den).toNat)
        (limbsToNat den * 2 ^ (divisorShift den).toNat) position)
      (limbsToNat den * 2 ^ (divisorShift den).toNat)
    (limbsToNat result.1 = limbsToNat num / limbsToNat den ↔ noOverflow) ∧
      (noOverflow → limbsToNat (unshiftedRemainder (divisorShift den)
        (result.2.take den.length)) = limbsToNat num % limbsToNat den) := by
  intro result noOverflow
  have nonempty : den ≠ [] := length_pos_iff.mp (by omega)
  have shift_lt : (divisorShift den).toNat < 32 := clz32Nonzero_lt _
  have divisor_fits := limbsToNat_mul_shift_lt nonempty top_ne
  have divisor_ge := le_limbsToNat_mul_shift nonempty top_ne
  have start_lt := shifted_start_lt several top_ne longer
  have divisor_eq := limbsToNat_shiftedDivisor _ shift_lt divisor_fits
  have dividend_eq := limbsToNat_shiftedDividend _ shift_lt num
  have divisor_length := length_shiftedDivisor (divisorShift den) den
  have dividend_length := length_shiftedDividend (divisorShift den) num
  have scale_pos : 0 < 2 ^ (divisorShift den).toNat := Nat.pow_pos (by norm_num)
  simp only [result]
  generalize shiftedDivisor (divisorShift den) den = vn at divisor_eq divisor_length ⊢
  generalize shiftedDividend (divisorShift den) num = un at dividend_eq dividend_length ⊢
  have vTop_pos : 0 < (vn.getD (vn.length - 1) 0).toNat := by
    have top_eq := limbsToNat_eq_top (length_pos_iff.mp (show 0 < vn.length by omega))
    have low_lt := limbsToNat_take_lt vn (vn.length - 1)
    rw [Nat.pos_iff_ne_zero]
    intro zero
    rw [zero] at top_eq
    rw [divisor_length] at top_eq low_lt
    omega
  have rest_lt : limbsToNat (un.drop (num.length - den.length + 1)) < limbsToNat vn := by
    rw [limbsToNat_drop, dividend_eq, divisor_eq]
    exact start_lt
  obtain ⟨quotient_iff, remainder⟩ := divideLoop_value
    (by rw [divisor_length]; exact several) vTop_pos
    (num.length - den.length + 1) un (by omega) rest_lt
  rw [divisor_length, divisor_eq, dividend_eq, noneOverflows_iff start_lt] at quotient_iff remainder
  rw [Nat.mul_div_mul_right _ _ scale_pos] at quotient_iff
  rw [Nat.mul_mod_mul_right] at remainder
  refine ⟨quotient_iff, fun none => ?_⟩
  have rest_eq := remainder none
  apply limbsToNat_unshiftedRemainder shift_lt
  rw [limbsToNat_take_of_lt, rest_eq]
  rw [rest_eq, ← Nat.mul_mod_mul_right]
  exact (Nat.mod_lt _ (by omega)).trans divisor_fits

end LongDivision

/-- `bigint_divmod_abs_limbs` on well-formed operands: the quotient is right
exactly when no window overflows, and then so is the remainder. -/
theorem divmodAbsLimbs_value (a b : Payload) (nonzero : b.toInt ≠ 0) :
    ∃ quot rem, divmodAbsLimbs a.limbs b.limbs = some (quot, rem) ∧
      (limbsToNat quot = a.magnitude / b.magnitude ↔ NoTrialOverflow a b) ∧
      (NoTrialOverflow a b → limbsToNat rem = a.magnitude % b.magnitude) := by
  have notZero : ¬limbsIsZero b.limbs = true := fun zero =>
    nonzero (b.limbsIsZero_iff_toInt.mp zero)
  have b_length := length_pos_iff.mpr b.nonempty
  have magnitude_pos : 0 < b.magnitude := by
    rw [Nat.pos_iff_ne_zero]
    intro zero
    apply nonzero
    simp [Payload.toInt, zero]
  unfold divmodAbsLimbs
  rw [if_neg notZero]
  by_cases smaller : cmpAbsLimbs a.limbs b.limbs < 0
  · rw [if_pos smaller]
    rw [cmpAbsLimbs_neg_iff a.nonempty b.nonempty] at smaller
    change a.magnitude < b.magnitude at smaller
    have none : NoTrialOverflow a b := by
      intro _ position
      apply not_windowOverflows_of_lt
      apply windowAt_lt_of_le 0 _ (Nat.zero_le position)
      rw [pow_zero, Nat.div_one]
      exact Nat.mul_lt_mul_of_pos_right smaller (by positivity)
    refine ⟨_, _, rfl, ?_, fun _ => ?_⟩
    · simp [Nat.div_eq_of_lt smaller, none]
    · rw [limbsToNat_normalizeLimbs, Nat.mod_eq_of_lt smaller]
      rfl
  rw [if_neg smaller]
  rw [cmpAbsLimbs_neg_iff a.nonempty b.nonempty] at smaller
  by_cases single : b.limbs.length = 1
  · rw [if_pos single]
    have b_value : b.magnitude = (b.limbs.getD 0 0).toNat := by
      rw [Payload.magnitude, limbsToNat_eq_top b.nonempty, single]
      simp
    obtain ⟨value, rem_lt⟩ := divSmallLoop_value (b_value ▸ magnitude_pos) a.limbs
    change a.magnitude = _ at value
    rw [← b_value] at value rem_lt
    have none : NoTrialOverflow a b := by
      intro several
      omega
    rw [Nat.mul_comm, Nat.add_comm] at value
    obtain ⟨quotient_eq, rem_eq⟩ := (Nat.div_mod_unique magnitude_pos).mpr ⟨value.symm, rem_lt⟩
    refine ⟨_, _, rfl, ?_, fun _ => ?_⟩
    · rw [limbsToNat_normalizeLimbs, quotient_eq]
      simp [none]
    · have divisor_lt := (b.limbs.getD 0 0).toNat_lt
      rw [limbsToNat_cons, limbsToNat_nil, Nat.mul_zero, Nat.add_zero,
        UInt64.toNat_toUInt32, Nat.mod_eq_of_lt (by omega), rem_eq]
  · rw [if_neg single]
    have several : 2 ≤ b.limbs.length := by omega
    have top_ne := top_ne_zero_of_normalized b.normalized (by omega)
    have longer : b.limbs.length ≤ a.limbs.length := by
      by_contra shorter
      have larger := limbsToNat_take_lt_of_longer a.limbs le_rfl top_ne (Nat.not_le.mp shorter)
      rw [take_length, take_length] at larger
      exact smaller larger
    obtain ⟨quotient_iff, remainder⟩ := divideShifted_value several top_ne longer
    refine ⟨_, _, rfl, ?_, ?_⟩
    · rw [limbsToNat_normalizeLimbs, NoTrialOverflow, forall_prop_of_true several]
      exact quotient_iff
    · rw [limbsToNat_normalizeLimbs, NoTrialOverflow, forall_prop_of_true several]
      exact remainder

/-! ### Integers -/

/-- `q` and `r` are the truncated quotient of `a` by `b` and its remainder. -/
structure IsTruncatedDivision (a b q r : Int) : Prop where
  /-- The quotient is rounded toward zero. -/
  quotient : q = a.tdiv b
  /-- Quotient and remainder recompose the dividend. -/
  recompose : a = q * b + r
  /-- The remainder is smaller than the divisor. -/
  remainder_lt : r.natAbs < b.natAbs
  /-- The remainder is zero or has the sign of the dividend. -/
  remainder_sign : r = 0 ∨ r.sign = a.sign

/-- `bigint_div` and `bigint_mod` return the truncated quotient and its
remainder. -/
def DividesExactly (a b : Payload) : Prop :=
  ∃ q r, bigintDiv a b = .ok q ∧ bigintMod a b = .ok r ∧
    IsTruncatedDivision a.toInt b.toInt q.toInt r.toInt

theorem isTruncatedDivision_tdiv (nonzero : b ≠ 0) :
    IsTruncatedDivision a b (a.tdiv b) (a.tmod b) where
  quotient := rfl
  recompose := by
    rw [Int.mul_comm]
    exact (Int.mul_tdiv_add_tmod a b).symm
  remainder_lt := by
    rw [Int.natAbs_tmod]
    exact Nat.mod_lt _ (Int.natAbs_pos.mpr nonzero)
  remainder_sign := by
    rw [Int.sign_tmod]
    split_ifs with divides
    · exact Or.inl (Int.tmod_eq_zero_of_dvd divides)
    · exact Or.inr rfl

theorem Payload.tdiv_toInt (a b : Payload) :
    a.toInt.tdiv b.toInt =
      if a.sign != b.sign then -((a.magnitude / b.magnitude : Nat) : Int)
      else (a.magnitude / b.magnitude : Nat) := by
  rw [Int.ofNat_tdiv]
  cases signA : a.sign <;> cases signB : b.sign <;> simp [Payload.toInt, signA, signB]

theorem Payload.tmod_toInt (a b : Payload) :
    a.toInt.tmod b.toInt =
      if a.sign then -((a.magnitude % b.magnitude : Nat) : Int)
      else (a.magnitude % b.magnitude : Nat) := by
  rw [Int.ofNat_tmod]
  cases signA : a.sign <;> cases signB : b.sign <;> simp [Payload.toInt, signA, signB]

/-- The remainder of a division without a trial overflow. -/
theorem exists_bigintMod {a b : Payload} (nonzero : b.toInt ≠ 0) (none : NoTrialOverflow a b) :
    ∃ rem, bigintMod a b = .ok rem ∧ rem.toInt = a.toInt.tmod b.toInt := by
  obtain ⟨quot, rem, limbs_eq, -, remainder⟩ := divmodAbsLimbs_value a b nonzero
  refine ⟨_, by rw [bigintMod, if_neg (mt b.limbsIsZero_iff_toInt.mp nonzero), limbs_eq], ?_⟩
  rw [toInt_mkBigintLimbs_and, remainder none, ← Payload.tmod_toInt]

/-- `bigint_div` and `bigint_mod` meet truncated division exactly on the
operands without a trial overflow. -/
theorem dividesExactly_iff_noTrialOverflow (a b : Payload) (nonzero : b.toInt ≠ 0) :
    DividesExactly a b ↔ NoTrialOverflow a b := by
  obtain ⟨quot, rem, limbs_eq, quotient_iff, remainder⟩ := divmodAbsLimbs_value a b nonzero
  have notZero : ¬limbsIsZero b.limbs = true := fun zero =>
    nonzero (b.limbsIsZero_iff_toInt.mp zero)
  have div_eq : bigintDiv a b =
      .ok (mkBigintLimbs quot ((a.sign != b.sign) && !limbsIsZero quot)) := by
    rw [bigintDiv, if_neg notZero, limbs_eq]
  have mod_eq : bigintMod a b = .ok (mkBigintLimbs rem (a.sign && !limbsIsZero rem)) := by
    rw [bigintMod, if_neg notZero, limbs_eq]
  constructor
  · rintro ⟨q, r, q_eq, -, division⟩
    rw [div_eq] at q_eq
    obtain rfl := Except.ok.inj q_eq
    have quotient_eq := division.quotient
    rw [toInt_mkBigintLimbs_and, Payload.tdiv_toInt] at quotient_eq
    apply quotient_iff.mp
    split at quotient_eq <;> omega
  · intro none
    refine ⟨_, _, div_eq, mod_eq, ?_⟩
    rw [toInt_mkBigintLimbs_and, toInt_mkBigintLimbs_and,
      quotient_iff.mpr none, remainder none, ← Payload.tdiv_toInt,
      ← Payload.tmod_toInt]
    exact isTruncatedDivision_tdiv nonzero

/-- A dividend of four limbs whose division meets no overflowing window. -/
theorem noTrialOverflow_four_limbs :
    (mkBigintLimbs [3, 4] false).toInt ≠ 0 ∧
      NoTrialOverflow (mkBigintLimbs [5, 7, 9, 1] true)
        (mkBigintLimbs [3, 4] false) := by
  have nonzero : (mkBigintLimbs [3, 4] false).toInt ≠ 0 := by decide
  refine ⟨nonzero, (dividesExactly_iff_noTrialOverflow _ _ nonzero).mp
    ⟨mkBigintLimbs [268435456, 1073741826] true, mkBigintLimbs [3489660933] true,
      by rfl, by rfl, ?_⟩⟩
  exact isTruncatedDivision_tdiv nonzero

/-- `0x80000000FFFFFFFE00000000 / 0x80000000FFFFFFFF` comes out as `0xFFFFFFFE`
instead of `0xFFFFFFFF`. -/
theorem not_dividesExactly_overflowing_window :
    (mkBigintLimbs [0xFFFFFFFF, 0x80000000] false).toInt ≠ 0 ∧
      ¬DividesExactly (mkBigintLimbs [0, 0xFFFFFFFE, 0x80000000] false)
        (mkBigintLimbs [0xFFFFFFFF, 0x80000000] false) := by
  refine ⟨by decide, ?_⟩
  rintro ⟨q, r, q_eq, -, division⟩
  obtain rfl := Except.ok.inj q_eq
  exact absurd division.quotient (by decide)

end AntRuntime.BigInt
