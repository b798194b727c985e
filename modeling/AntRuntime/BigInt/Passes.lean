import AntRuntime.BigInt.Limbs

/-!
# Carrying passes over limb arrays

Value equations for the passes that move bits between neighbouring limbs: the
normalising shifts, division by one limb, the multiply-and-subtract pass and
the add-back pass.
-/

namespace AntRuntime.BigInt

open UInt32

/-- Joining a high word and a limb, with the truncation of the left shift. -/
theorem toNat_shiftLeft_or (high : UInt64) (low : UInt32) :
    ((high <<< 32) ||| low.toUInt64).toNat = 2 ^ 32 * (high.toNat % 2 ^ 32) + low.toNat := by
  have truncated : high.toNat <<< 32 % 2 ^ 64 = 2 ^ 32 * (high.toNat % 2 ^ 32) := by omega
  have amount : UInt64.toNat 32 % 64 = 32 := rfl
  rw [UInt64.toNat_or, UInt64.toNat_shiftLeft, amount, truncated]
  exact (Nat.two_pow_add_eq_or_of_lt low.toNat_lt _).symm

/-- The high half of a wide word. -/
theorem toNat_shiftRight_32 (word : UInt64) : (word >>> 32).toNat = word.toNat / 2 ^ 32 := by
  rw [UInt64.toNat_shiftRight, Nat.shiftRight_eq_div_pow]
  rfl

/-- A step leaves the low half of a word and passes the high half on. -/
theorem recombine_carry (value : rest + (2 ^ 32) ^ length * out = tail + cur / 2 ^ 32) :
    cur % 2 ^ 32 + 2 ^ 32 * rest + (2 ^ 32) ^ (length + 1) * out = cur + 2 ^ 32 * tail := by
  calc _ = cur % 2 ^ 32 + 2 ^ 32 * (rest + (2 ^ 32) ^ length * out) := by ring
    _ = cur + 2 ^ 32 * tail := by
        omega

/-! ### Shifts -/

theorem toNat_shiftStep (limb : UInt32) {shift carry : UInt32}
    (shift_lt : shift.toNat < 32) (carry_lt : carry.toNat < 2 ^ shift.toNat) :
    ((limb.toUInt64 <<< shift.toUInt64) ||| carry.toUInt64).toNat =
      limb.toNat * 2 ^ shift.toNat + carry.toNat := by
  have weight_le : 2 ^ shift.toNat ≤ 2 ^ 31 := Nat.pow_le_pow_right (by norm_num) (by omega)
  have product_lt : limb.toNat * 2 ^ shift.toNat < 2 ^ 64 := by
    have := Nat.mul_lt_mul_of_lt_of_le limb.toNat_lt weight_le (by norm_num)
    omega
  rw [UInt64.toNat_or, UInt64.toNat_shiftLeft, toNat_toUInt64, toNat_toUInt64,
    Nat.mod_eq_of_lt (by omega : shift.toNat < 64), Nat.shiftLeft_eq,
    Nat.mod_eq_of_lt product_lt, Nat.mul_comm]
  exact (Nat.two_pow_add_eq_or_of_lt carry_lt _).symm

theorem length_shiftLeftLoop (shift carry : UInt32) (limbs : List UInt32) :
    (shiftLeftLoop shift carry limbs).1.length = limbs.length := by
  induction limbs generalizing carry with
  | nil => rfl
  | cons limb limbs ih => simp [shiftLeftLoop, ih]

/-- The normalising shift multiplies by a power of two. -/
theorem shiftLeftLoop_value
    (shift_lt : shift.toNat < 32) (carry_lt : carry.toNat < 2 ^ shift.toNat) (limbs : List UInt32) :
    limbsToNat (shiftLeftLoop shift carry limbs).1 +
          (2 ^ 32) ^ limbs.length * (shiftLeftLoop shift carry limbs).2.toNat =
        limbsToNat limbs * 2 ^ shift.toNat + carry.toNat ∧
      (shiftLeftLoop shift carry limbs).2.toNat < 2 ^ shift.toNat := by
  induction limbs generalizing carry with
  | nil => simpa [shiftLeftLoop] using carry_lt
  | cons limb limbs ih =>
    simp only [shiftLeftLoop]
    generalize cur_eq :
      (limb.toUInt64 <<< shift.toUInt64) ||| carry.toUInt64 = cur
    have cur_value := toNat_shiftStep limb shift_lt carry_lt
    rw [cur_eq] at cur_value
    have cur_lt : cur.toNat < 2 ^ 32 * 2 ^ shift.toNat := by
      have limb_le : limb.toNat + 1 ≤ 2 ^ 32 := limb.toNat_lt
      have := Nat.mul_le_mul_right (2 ^ shift.toNat) limb_le
      rw [Nat.add_mul] at this
      omega
    have next_value : (cur >>> 32).toUInt32.toNat = cur.toNat / 2 ^ 32 := by
      rw [UInt64.toNat_toUInt32, toNat_shiftRight_32]
      have := cur.toNat_lt
      omega
    have next_lt : (cur >>> 32).toUInt32.toNat < 2 ^ shift.toNat := by
      rw [next_value]
      exact Nat.div_lt_of_lt_mul cur_lt
    obtain ⟨value, out_lt⟩ := ih next_lt
    refine ⟨?_, out_lt⟩
    rw [next_value] at value
    simp only [limbsToNat_cons, UInt64.toNat_toUInt32, List.length_cons]
    rw [recombine_carry value, cur_value]
    ring

/-- The closing shift divides by a power of two and reports the lost bits. -/
theorem shiftRightLoop_value {shift : UInt32}
    (shift_pos : 0 < shift.toNat) (shift_lt : shift.toNat < 32) (limbs : List UInt32) :
    limbsToNat limbs =
        limbsToNat (shiftRightLoop shift limbs).1 * 2 ^ shift.toNat +
          (shiftRightLoop shift limbs).2.toNat ∧
      (shiftRightLoop shift limbs).2.toNat < 2 ^ shift.toNat := by
  induction limbs with
  | nil => simp [shiftRightLoop]
  | cons cur limbs ih =>
    obtain ⟨value, carry_lt⟩ := ih
    simp only [shiftRightLoop]
    generalize (shiftRightLoop shift limbs).2 = carry at value carry_lt ⊢
    generalize (shiftRightLoop shift limbs).1 = shifted at value ⊢
    have split : 2 ^ shift.toNat * 2 ^ (32 - shift.toNat) = 2 ^ 32 := by
      rw [← Nat.pow_add]
      congr 1
      omega
    have mask : (((1 : UInt32) <<< shift) - 1).toNat = 2 ^ shift.toNat - 1 := by
      have weight_le : 2 ^ shift.toNat ≤ 2 ^ 31 := Nat.pow_le_pow_right (by norm_num) (by omega)
      rw [UInt32.toNat_sub, UInt32.toNat_shiftLeft, Nat.mod_eq_of_lt shift_lt]
      simp only [toNat_one]
      omega
    have remaining : (32 - shift).toNat = 32 - shift.toNat := by
      rw [UInt32.toNat_sub]
      have : toNat 32 = 32 := rfl
      omega
    have low_value : (cur >>> shift).toNat = cur.toNat / 2 ^ shift.toNat := by
      rw [UInt32.toNat_shiftRight, Nat.mod_eq_of_lt shift_lt, Nat.shiftRight_eq_div_pow]
    have low_lt : cur.toNat / 2 ^ shift.toNat < 2 ^ (32 - shift.toNat) := by
      apply Nat.div_lt_of_lt_mul
      rw [split]
      exact cur.toNat_lt
    have high_value : (carry <<< (32 - shift)).toNat = 2 ^ (32 - shift.toNat) * carry.toNat := by
      rw [UInt32.toNat_shiftLeft, remaining,
        Nat.mod_eq_of_lt (by omega : 32 - shift.toNat < 32), Nat.shiftLeft_eq,
        Nat.mul_comm]
      apply Nat.mod_eq_of_lt
      calc 2 ^ (32 - shift.toNat) * carry.toNat
          < 2 ^ (32 - shift.toNat) * 2 ^ shift.toNat :=
            Nat.mul_lt_mul_of_pos_left carry_lt (by positivity)
        _ = 2 ^ 32 := by rw [Nat.mul_comm, split]
    have joined : ((cur >>> shift) ||| (carry <<< (32 - shift))).toNat =
        2 ^ (32 - shift.toNat) * carry.toNat + cur.toNat / 2 ^ shift.toNat := by
      rw [UInt32.toNat_or, low_value, high_value, Nat.or_comm]
      exact (Nat.two_pow_add_eq_or_of_lt low_lt _).symm
    have lost : (cur &&& (((1 : UInt32) <<< shift) - 1)).toNat = cur.toNat % 2 ^ shift.toNat := by
      rw [UInt32.toNat_and, mask, Nat.and_two_pow_sub_one_eq_mod]
    refine ⟨?_, ?_⟩
    · rw [limbsToNat_cons, limbsToNat_cons, joined, lost, value, ← split]
      conv_lhs => rw [← Nat.div_add_mod cur.toNat (2 ^ shift.toNat)]
      ring
    · rw [lost]
      exact Nat.mod_lt _ (by positivity)

/-! ### Division by one limb -/

theorem divSmallLoop_value (positive : 0 < divisor.toNat) (limbs : List UInt32) :
    limbsToNat limbs =
        limbsToNat (divSmallLoop divisor limbs).1 * divisor.toNat +
          (divSmallLoop divisor limbs).2.toNat ∧
      (divSmallLoop divisor limbs).2.toNat < divisor.toNat := by
  induction limbs with
  | nil => simpa [divSmallLoop] using positive
  | cons limb limbs ih =>
    obtain ⟨value, rem_lt⟩ := ih
    simp only [divSmallLoop]
    generalize (divSmallLoop divisor limbs).2 = rem at value rem_lt ⊢
    generalize (divSmallLoop divisor limbs).1 = quotient at value ⊢
    have divisor_lt := divisor.toNat_lt
    have limb_lt := limb.toNat_lt
    have cur_value : ((rem <<< 32) ||| limb.toUInt64).toNat = 2 ^ 32 * rem.toNat + limb.toNat := by
      rw [toNat_shiftLeft_or, Nat.mod_eq_of_lt (by omega)]
    generalize (rem <<< 32) ||| limb.toUInt64 = cur at cur_value ⊢
    have cur_lt : cur.toNat < divisor.toNat * 2 ^ 32 := by
      have := Nat.mul_le_mul_right (2 ^ 32) (Nat.succ_le_of_lt rem_lt)
      omega
    have digit_lt : cur.toNat / divisor.toNat < 2 ^ 32 := Nat.div_lt_of_lt_mul cur_lt
    rw [limbsToNat_cons, limbsToNat_cons, UInt64.toNat_toUInt32,
      UInt64.toNat_div, UInt64.toNat_mod, toNat_toUInt64,
      Nat.mod_eq_of_lt digit_lt]
    refine ⟨?_, Nat.mod_lt _ positive⟩
    have recombined := Nat.div_add_mod cur.toNat divisor.toNat
    rw [value]
    linarith

/-! ### Multiply-and-subtract and add-back -/

theorem length_mulSubLoop (qhat k : UInt64) (us vs : List UInt32) :
    (mulSubLoop qhat k us vs).1.length = us.length := by
  induction us generalizing k vs with
  | nil => cases vs <;> rfl
  | cons u us ih =>
    cases vs with
    | nil => rfl
    | cons v vs => simp [mulSubLoop, ih]

/-- One limb of the multiply-and-subtract pass. -/
theorem mulSubStep_value (u v : UInt32) (qhat_lt : qhat.toNat < 2 ^ 32) (k_le : k.toNat ≤ 2 ^ 32) :
    let p := qhat * v.toUInt64 + k
    let plow := p.toUInt32
    let step : UInt32 × UInt64 :=
      if u < plow then
        ((u.toUInt64 + 0x100000000 - plow.toUInt64).toUInt32, (p >>> 32) + 1)
      else (u - plow, p >>> 32)
    step.1.toNat + qhat.toNat * v.toNat + k.toNat = u.toNat + 2 ^ 32 * step.2.toNat ∧
      step.2.toNat ≤ 2 ^ 32 := by
  intro p plow step
  have v_lt := v.toNat_lt
  have u_lt := u.toNat_lt
  have product_le : qhat.toNat * v.toNat ≤ (2 ^ 32 - 1) * (2 ^ 32 - 1) :=
    Nat.mul_le_mul (by omega) (by omega)
  have p_value : p.toNat = qhat.toNat * v.toNat + k.toNat := by
    rw [UInt64.toNat_add, UInt64.toNat_mul, toNat_toUInt64]
    omega
  have plow_value : plow.toNat = p.toNat % 2 ^ 32 := UInt64.toNat_toUInt32 p
  have high_value : (p >>> 32).toNat = p.toNat / 2 ^ 32 := toNat_shiftRight_32 p
  have one_value : UInt64.toNat 1 = 1 := rfl
  have base_value : UInt64.toNat 0x100000000 = 2 ^ 32 := rfl
  by_cases less : u < plow
  · have less_nat := lt_iff_toNat_lt.mp less
    simp only [step, if_pos less]
    rw [UInt64.toNat_toUInt32, UInt64.toNat_sub, UInt64.toNat_add, UInt64.toNat_add,
      toNat_toUInt64, toNat_toUInt64]
    omega
  · have notLess_nat : ¬u.toNat < plow.toNat := fun lt => less (lt_iff_toNat_lt.mpr lt)
    simp only [step, if_neg less]
    rw [UInt32.toNat_sub]
    omega

/-- The multiply-and-subtract pass computes `us - qhat * vs` up to the
reported carry. -/
theorem mulSubLoop_value {us vs : List UInt32}
    (qhat_lt : qhat.toNat < 2 ^ 32) (k_le : k.toNat ≤ 2 ^ 32) (sameLength : us.length = vs.length) :
    limbsToNat (mulSubLoop qhat k us vs).1 + qhat.toNat * limbsToNat vs + k.toNat =
        limbsToNat us +
          (2 ^ 32) ^ vs.length * (mulSubLoop qhat k us vs).2.toNat ∧
      (mulSubLoop qhat k us vs).2.toNat ≤ 2 ^ 32 := by
  induction us generalizing k vs with
  | nil =>
    obtain rfl : vs = [] := List.eq_nil_of_length_eq_zero sameLength.symm
    simpa [mulSubLoop] using k_le
  | cons u us ih =>
    cases vs with
    | nil => simp at sameLength
    | cons v vs =>
      obtain ⟨step_value, step_le⟩ := mulSubStep_value u v qhat_lt k_le
      simp only [mulSubLoop]
      generalize (if u < (qhat * v.toUInt64 + k).toUInt32 then _ else _ :
        UInt32 × UInt64) = step at step_value step_le ⊢
      obtain ⟨limb, next⟩ := step
      obtain ⟨value, out_le⟩ := ih step_le (by simpa using sameLength)
      refine ⟨?_, out_le⟩
      simp only [limbsToNat_cons, List.length_cons] at step_value value ⊢
      rw [pow_succ (2 ^ 32)]
      linarith

theorem length_addBackLoop (carry : UInt64) (us vs : List UInt32) :
    (addBackLoop carry us vs).1.length = us.length := by
  induction us generalizing carry vs with
  | nil => cases vs <;> rfl
  | cons u us ih =>
    cases vs with
    | nil => rfl
    | cons v vs => simp [addBackLoop, ih]

/-- The add-back pass computes `us + vs` with a carry of at most one. -/
theorem addBackLoop_value {carry : UInt64} {us vs : List UInt32}
    (carry_le : carry.toNat ≤ 1) (sameLength : us.length = vs.length) :
    limbsToNat (addBackLoop carry us vs).1 +
          (2 ^ 32) ^ vs.length * (addBackLoop carry us vs).2.toNat =
        limbsToNat us + limbsToNat vs + carry.toNat ∧
      (addBackLoop carry us vs).2.toNat ≤ 1 := by
  induction us generalizing carry vs with
  | nil =>
    obtain rfl : vs = [] := List.eq_nil_of_length_eq_zero sameLength.symm
    simpa [addBackLoop] using carry_le
  | cons u us ih =>
    cases vs with
    | nil => simp at sameLength
    | cons v vs =>
      simp only [addBackLoop]
      have u_lt := u.toNat_lt
      have v_lt := v.toNat_lt
      have sum_value : (u.toUInt64 + v.toUInt64 + carry).toNat =
          u.toNat + v.toNat + carry.toNat := by
        rw [UInt64.toNat_add, UInt64.toNat_add, toNat_toUInt64, toNat_toUInt64]
        omega
      generalize u.toUInt64 + v.toUInt64 + carry = sum at sum_value ⊢
      have next_value := toNat_shiftRight_32 sum
      have next_le : (sum >>> 32).toNat ≤ 1 := by omega
      obtain ⟨value, out_le⟩ := ih next_le (Nat.succ.inj sameLength)
      refine ⟨?_, out_le⟩
      rw [next_value] at value
      simp only [limbsToNat_cons, List.length_cons, UInt64.toNat_toUInt32]
      rw [recombine_carry value, sum_value]
      ring

end AntRuntime.BigInt
