import AntRuntime.BigInt.Arithmetic

/-!
# Wrapping BigInts to a number of bits

`BigInt.asUintN` and `BigInt.asIntN` divide by a power of two and correct the sign of the
remainder. The division makes no wrong digit there: below its top limb the divisor is zero.
For 64 bits the low limbs are enough.
-/

namespace AntRuntime.BigInt

open List

section Model

/-- `bigint_pow2`. -/
def bigintPow2 (bits : Nat) : Except String Payload :=
  finishIn (bits / 32 + 1) (replicate (bits / 32) 0 ++ [(1 : UInt32) <<< UInt32.ofNat (bits % 32)])
    false

/-- The remainder that both functions start with, made nonnegative. -/
def reduced (value mod : Payload) : Except String Payload := do
  let res ← bigintMod value mod
  if res.sign then bigintAdd res mod else .ok res

/-- `builtin_BigInt_asUintN`, with the number of bits converted. -/
def asUintN (bits : Nat) (value : Payload) : Except String Payload :=
  if bits = 0 then .ok (mkBigintLimbs [0] false)
  else do
    let mod ← bigintPow2 bits
    reduced value mod

/-- `builtin_BigInt_asIntN`, with the number of bits converted. -/
def asIntN (bits : Nat) (value : Payload) : Except String Payload :=
  if bits = 0 then .ok (mkBigintLimbs [0] false)
  else do
    let mod ← bigintPow2 bits
    let res ← reduced value mod
    let threshold ← bigintPow2 (bits - 1)
    if 0 ≤ bigintCompare res threshold then bigintSub res mod else .ok res

/-- `bigint_low_u64`. -/
def bigintLowU64 (value : Payload) : UInt64 :=
  (value.limbs.getD 0 0).toUInt64 ||| (value.limbs.getD 1 0).toUInt64 <<< 32

/-- `bigint_to_uint64_wrapping`. -/
def bigintToUint64Wrapping (value : Payload) : UInt64 :=
  if value.sign then 0 - bigintLowU64 value else bigintLowU64 value

/-- `bigint_to_int64_wrapping`. -/
def bigintToInt64Wrapping (value : Payload) : Int64 :=
  (bigintToUint64Wrapping value).toInt64

end Model

section Remainders

variable {mod res : Payload}

theorem computes_bigintPow2 (bits : Nat) :
    Computes (bigintPow2 bits) (2 ^ bits) (bits / 32 + 1) := by
  have small := Nat.mod_lt bits (show 0 < 32 by norm_num)
  have digit : ((1 : UInt32) <<< UInt32.ofNat (bits % 32)).toNat = 2 ^ (bits % 32) := by
    rw [UInt32.toNat_shiftLeft, toNat_ofNat_shift small, Nat.mod_eq_of_lt small,
      UInt32.toNat_one, Nat.one_shiftLeft]
    exact Nat.mod_eq_of_lt (Nat.pow_lt_pow_right (by norm_num) small)
  refine computes_finishIn ?_ _
  rw [toInt_mkBigintLimbs, if_neg Bool.false_ne_true, limbsToNat_append, limbsToNat_replicate,
    length_replicate, limbsToNat_cons, limbsToNat_nil, digit, ← pow_mul, Nat.mul_zero,
    Nat.add_zero, Nat.zero_add, ← pow_add, Nat.div_add_mod]
  rfl

theorem limbCount_two_pow (bits : Nat) : limbCount (2 ^ bits) = bits / 32 + 1 := by
  rw [limbCount, Nat.log_pow_left, Nat.log_pow (by norm_num)]

theorem magnitude_two_pow (isPower : mod.toInt = 2 ^ bits) : mod.magnitude = 2 ^ bits := by
  rw [← mod.natAbs_toInt, isPower, Int.natAbs_pow]
  rfl

/-- Division by a power of two has no trial that overflows. -/
theorem noTrialOverflow_two_pow (isPower : mod.toInt = 2 ^ bits) (value : Payload) :
    NoTrialOverflow value mod := by
  rintro several position ⟨-, -, wrong, -⟩
  have length_eq := mod.length_limbs
  rw [magnitude_two_pow isPower, limbCount_two_pow] at length_eq
  -- The limb below the top of the shifted divisor is zero.
  have below : mod.magnitude * 2 ^ (divisorShift mod.limbs).toNat /
      (2 ^ 32) ^ (mod.limbs.length - 2) % 2 ^ 32 = 0 := by
    rw [magnitude_two_pow isPower, ← pow_add, ← pow_mul, Nat.pow_div (by omega) (by norm_num)]
    exact Nat.mod_eq_zero_of_dvd (Nat.pow_dvd_pow 2 (by omega))
  rw [below, Nat.mul_zero] at wrong
  exact Nat.not_lt_zero _ wrong

variable (isPower : mod.toInt = 2 ^ bits) (fits : bits / 32 + 1 ≤ maxLimbs)
include isPower fits

/-- Numbers up to the power cancel each other in room for the power. -/
theorem exists_addSigned (differ : res.sign ≠ bneg) (le : res.magnitude ≤ 2 ^ bits) :
    ∃ result, addSigned res bneg mod.limbs = .ok result ∧
      result.toInt = res.toInt + if bneg then -(mod.magnitude : Int) else mod.magnitude := by
  refine (computes_addSigned res mod bneg).exists_of_le ?_
  have shorter := limbCount_mono le
  rw [limbCount_two_pow] at shorter
  rw [sumRoom, if_neg differ, res.length_limbs, mod.length_limbs, magnitude_two_pow isPower,
    limbCount_two_pow]
  omega

/-- The remainder is the one that is not negative. -/
theorem exists_reduced (value : Payload) :
    ∃ res, reduced value mod = .ok res ∧ res.toInt = value.toInt % 2 ^ bits := by
  have positive : (0 : Int) < 2 ^ bits := by positivity
  obtain ⟨res, mod_eq, isRemainder⟩ :=
    exists_bigintMod (show mod.toInt ≠ 0 by omega) (noTrialOverflow_two_pow isPower value)
  have nonneg := Int.emod_nonneg value.toInt positive.ne'
  rw [isPower, Int.tmod_eq_emod] at isRemainder
  rw [reduced, mod_eq]
  change ∃ result, (if res.sign then bigintAdd res mod else .ok res) = .ok result ∧ _
  rw [res.sign_eq]
  split_ifs at isRemainder
  · rw [Int.natCast_zero, Int.sub_zero] at isRemainder
    rw [if_neg (by simpa [isRemainder] using nonneg)]
    exact ⟨res, rfl, isRemainder⟩
  · rw [Int.natAbs_of_nonneg positive.le] at isRemainder
    have isNegative : res.toInt < 0 := by omega
    have le : res.magnitude ≤ 2 ^ bits := by
      rw [← res.natAbs_toInt, ← magnitude_two_pow isPower, ← mod.natAbs_toInt, isPower]
      omega
    obtain ⟨result, result_eq, isSum⟩ := exists_addSigned isPower fits
      (show res.sign ≠ mod.sign by simp [res.sign_eq, mod.sign_eq, isPower, isNegative]) le
    change result.toInt = res.toInt + mod.toInt at isSum
    rw [if_pos (by simpa using isNegative)]
    exact ⟨result, result_eq, by rw [isSum, isPower, isRemainder, Int.sub_add_cancel]⟩

/-- The upper half of the remainders goes below zero. -/
theorem exists_balanced {threshold : Payload} (value : Payload) (some : bits ≠ 0)
    (isRes : res.toInt = value.toInt % 2 ^ bits) (isThreshold : threshold.toInt = 2 ^ (bits - 1)) :
    ∃ result, (if 0 ≤ bigintCompare res threshold then bigintSub res mod else .ok res) =
      .ok result ∧ result.toInt = value.toInt.bmod (2 ^ bits) := by
  have half : (2 : Int) ^ bits = 2 * 2 ^ (bits - 1) := by
    rw [← pow_succ', Nat.sub_add_cancel (by omega)]
  have nonneg := Int.emod_nonneg value.toInt (show (2 : Int) ^ bits ≠ 0 by positivity)
  have less := Int.emod_lt_of_pos value.toInt (show (0 : Int) < 2 ^ bits by positivity)
  have cast : ((2 ^ bits : Nat) : Int) = 2 ^ bits := by push_cast; rfl
  have sign := (bigintCompare_sign res threshold).1
  rw [isRes, isThreshold] at sign
  rw [Int.bmod_def, cast]
  split_ifs with notLess small small
  · omega
  · have le : res.magnitude ≤ 2 ^ bits := by
      rw [← res.natAbs_toInt]
      omega
    have notNegative : mod.sign = false := by simp [mod.sign_eq, isPower]
    obtain ⟨result, result_eq, isDifference⟩ := exists_addSigned isPower fits
      (show res.sign ≠ !mod.sign by simpa [res.sign_eq, notNegative, isRes] using nonneg) le
    refine ⟨result, result_eq, ?_⟩
    rw [isDifference, isRes, notNegative, magnitude_two_pow isPower, cast]
    rfl
  · exact ⟨res, rfl, isRes⟩
  · omega

end Remainders

section Results

variable (bits : Nat) (value : Payload)

theorem computes_asUintN :
    Computes (asUintN bits value) (value.toInt % 2 ^ bits) (bits / 32 + 1) := by
  rw [asUintN]
  split_ifs with isZero
  · rw [isZero, pow_zero, Int.emod_one]
    exact ⟨_, rfl, by decide⟩
  · rw [← Nat.max_zero (bits / 32 + 1)]
    exact (computes_bigintPow2 bits).bind fun fits mod isPower => exists_reduced isPower fits value

theorem computes_asIntN :
    Computes (asIntN bits value) (value.toInt.bmod (2 ^ bits)) (bits / 32 + 1) := by
  rw [asIntN]
  split_ifs with isZero
  · rw [isZero, pow_zero, Int.bmod_one]
    exact ⟨_, rfl, by decide⟩
  · rw [← Nat.max_zero (bits / 32 + 1)]
    refine (computes_bigintPow2 bits).bind fun fits mod isPower => ?_
    obtain ⟨res, res_eq, isRes⟩ := exists_reduced isPower fits value
    obtain ⟨threshold, threshold_eq, isThreshold⟩ :=
      (computes_bigintPow2 (bits - 1)).exists_of_le (by omega)
    rw [res_eq]
    rw [threshold_eq]
    exact exists_balanced isPower fits value isZero isRes isThreshold

theorem toNat_bigintLowU64 : (bigintLowU64 value).toNat = value.magnitude % 2 ^ 64 := by
  rw [bigintLowU64, UInt64.or_comm, toNat_shiftLeft_or, UInt32.toNat_toUInt64, Payload.magnitude]
  cases value.limbs with
  | nil => rfl
  | cons low rest =>
    have low_lt := low.toNat_lt
    cases rest with
    | nil => simp
    | cons high rest =>
      have high_lt := high.toNat_lt
      simp
      omega

theorem toNat_bigintToUint64Wrapping :
    ((bigintToUint64Wrapping value).toNat : Int) = value.toInt % 2 ^ 64 := by
  have low := toNat_bigintLowU64 value
  have zero : UInt64.toNat 0 = 0 := rfl
  rw [bigintToUint64Wrapping, Payload.toInt]
  split_ifs
  · rw [UInt64.toNat_sub]
    omega
  · omega

theorem toInt_bigintToInt64Wrapping :
    (bigintToInt64Wrapping value).toInt = value.toInt.bmod (2 ^ 64) := by
  change (bigintToUint64Wrapping value).toBitVec.toInt = _
  rw [BitVec.toInt_eq_toNat_bmod]
  change ((bigintToUint64Wrapping value).toNat : Int).bmod (2 ^ 64) = _
  rw [toNat_bigintToUint64Wrapping]
  exact Int.emod_bmod value.toInt (2 ^ 64)

/-- A BigInt wrapped to some bits is its residue, from zero on or around zero, or there is no
room for the power of two. To 64 bits the low limbs give the same. -/
structure Wraps : Prop where
  unsigned : Computes (asUintN bits value) (value.toInt % 2 ^ bits) (bits / 32 + 1)
  signed : Computes (asIntN bits value) (value.toInt.bmod (2 ^ bits)) (bits / 32 + 1)
  unsigned64 : ∃ result, asUintN 64 value = .ok result ∧
    result.toInt = (bigintToUint64Wrapping value).toNat
  signed64 : ∃ result, asIntN 64 value = .ok result ∧
    result.toInt = (bigintToInt64Wrapping value).toInt

/-- Every BigInt wraps to every number of bits. -/
theorem wraps : Wraps bits value where
  unsigned := computes_asUintN bits value
  signed := computes_asIntN bits value
  unsigned64 := by
    rw [toNat_bigintToUint64Wrapping]
    exact (computes_asUintN 64 value).exists_of_le (by decide)
  signed64 := by
    rw [toInt_bigintToInt64Wrapping]
    exact (computes_asIntN 64 value).exists_of_le (by decide)

end Results

end AntRuntime.BigInt
