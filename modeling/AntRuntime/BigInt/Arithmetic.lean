import AntRuntime.BigInt.Conversion

/-!
# BigInt arithmetic

Sums, differences, products, right shifts and powers of BigInts. Each works on the limbs
of the magnitudes and normalises what comes out, so that a BigInt is determined by the
integer it denotes. What is computed is exact as long as the limbs that it is computed in
can be counted in 32 bits. The machine is taken to have the memory for them.
-/

namespace AntRuntime.BigInt

open List

section Model

/-- An operand, read as zero past its end. -/
def padLimbs (limbs : List UInt32) (count : Nat) : List UInt32 :=
  limbs ++ List.replicate (count - limbs.length) 0

/-- `bigint_add_abs_limbs`. Its loop is the one that adds a divisor back. -/
def addAbsLimbs (a b : List UInt32) : List UInt32 :=
  let maxlen := max a.length b.length
  let result := addBackLoop 0 (padLimbs a maxlen) (padLimbs b maxlen)
  if result.2 = 0 then result.1 else result.1 ++ [result.2.toUInt32]

/-- The loop of `bigint_sub_abs_limbs`. -/
def subLoop (borrow : UInt64) : List UInt32 → List UInt32 → List UInt32
  | da :: a, db :: b =>
    let subtrahend := db.toUInt64 + borrow
    if da.toUInt64 < subtrahend then
      (0x100000000 + da.toUInt64 - subtrahend).toUInt32 :: subLoop 1 a b
    else (da.toUInt64 - subtrahend).toUInt32 :: subLoop 0 a b
  | _, _ => []

/-- `bigint_sub_abs_limbs`. -/
def subAbsLimbs (a b : List UInt32) : List UInt32 :=
  subLoop 0 a (padLimbs b a.length)

/-- The carry of a row, added to the limbs behind the row. -/
def carryLoop (carry : UInt64) : List UInt32 → List UInt32
  | [] => []
  | limb :: rest =>
    if carry = 0 then limb :: rest
    else
      let cur := limb.toUInt64 + (carry &&& 0xFFFFFFFF)
      cur.toUInt32 :: carryLoop ((carry >>> 32) + (cur >>> 32)) rest

/-- A row of `bigint_mul_abs_limbs`: a limb times the limbs `b`, added to the result from
the place of the limb on. -/
def mulRow (factor : UInt32) (carry : UInt64) : List UInt32 → List UInt32 → List UInt32
  | limb :: b, old :: result =>
    let prod := factor.toUInt64 * limb.toUInt64
    let lo := old.toUInt64 + (prod &&& 0xFFFFFFFF) + (carry &&& 0xFFFFFFFF)
    lo.toUInt32 :: mulRow factor ((prod >>> 32) + (carry >>> 32) + (lo >>> 32)) b result
  | _, result => carryLoop carry result

/-- The rows of `bigint_mul_abs_limbs`. Later rows leave the lowest limb as it is. -/
def mulRows (b : List UInt32) : List UInt32 → List UInt32 → List UInt32
  | [], result => result
  | factor :: a, result =>
    match mulRow factor 0 b result with
    | [] => []
    | limb :: rest => limb :: mulRows b a rest

/-- `bigint_mul_abs_limbs`. -/
def mulAbsLimbs : List UInt32 → List UInt32 → List UInt32
  | [x], [y] =>
    let product := x.toUInt64 * y.toUInt64
    if (product >>> 32).toUInt32 = 0 then [product.toUInt32]
    else [product.toUInt32, (product >>> 32).toUInt32]
  | a, b => mulRows b a (List.replicate (a.length + b.length + 1) 0)

/-- The greatest `limb_count`, `UINT32_MAX`. -/
def maxLimbs : Nat := 4294967295

/-- A result computed in room for `capacity` limbs. With more than 32 of them the room is that
of a payload, which `bigint_alloc_payload` refuses to make if the count does not fit. -/
def finishIn (capacity : Nat) (limbs : List UInt32) (negative : Bool) : Except String Payload :=
  if maxLimbs < capacity then .error "oom" else .ok (mkBigintLimbs limbs negative)

/-- `bigint_add` and `bigint_sub`, which differ in the sign that the second operand
counts with. -/
def addSigned (a : Payload) (bneg : Bool) (bd : List UInt32) : Except String Payload :=
  if a.sign = bneg then
    finishIn (max a.limbs.length bd.length + 1) (addAbsLimbs a.limbs bd) a.sign
  else if 0 ≤ cmpAbsLimbs a.limbs bd then
    finishIn a.limbs.length (subAbsLimbs a.limbs bd) a.sign
  else finishIn bd.length (subAbsLimbs bd a.limbs) bneg

/-- `bigint_add`. -/
def bigintAdd (a b : Payload) : Except String Payload :=
  addSigned a b.sign b.limbs

/-- `bigint_sub`. -/
def bigintSub (a b : Payload) : Except String Payload :=
  addSigned a (!b.sign) b.limbs

/-- `bigint_mul`. -/
def bigintMul (a b : Payload) : Except String Payload :=
  finishIn (a.limbs.length + b.limbs.length + 1) (mulAbsLimbs a.limbs b.limbs) (a.sign != b.sign)

/-- `bigint_neg`. -/
def bigintNeg (a : Payload) : Except String Payload :=
  finishIn a.limbs.length a.limbs !a.sign

/-- `bigint_shift_right_abs`: the shifted limbs, and whether a bit was lost. -/
def shiftRightAbs (limbs : List UInt32) (shift : Nat) : List UInt32 × Bool :=
  if limbs.length ≤ shift / 32 then ([0], limbs.any (· != 0))
  else
    let lost := (limbs.take (shift / 32)).any (· != 0)
    let kept := limbs.drop (shift / 32)
    if shift % 32 = 0 then (normalizeLimbs kept, lost)
    else
      let result := shiftRightLoop (UInt32.ofNat (shift % 32)) kept
      (normalizeLimbs result.1, lost || result.2 != 0)

/-- `bigint_add_u32_inplace`. The loop stops when nothing is left to carry: the limbs from
there on would not change. -/
def addU32InPlace (limbs : List UInt32) (capacity : Nat) (value : UInt32) : List UInt32 :=
  let result := mulAddLoop 1 value.toUInt64 limbs
  normalizeLimbs
    (if result.2 ≠ 0 ∧ limbs.length < capacity then result.1 ++ [result.2.toUInt32] else result.1)

/-- The room that `bigint_shift_right` computes in. -/
def shiftRightRoom (value : Payload) (shift : Nat) : Nat :=
  if value.limbs.length ≤ shift / 32 then 1
  else value.limbs.length - shift / 32 + (if value.sign then 1 else 0)

/-- `bigint_shift_right`. -/
def bigintShiftRight (value : Payload) (shift : Nat) : Except String Payload :=
  if shift = 0 ∨ limbsIsZero value.limbs then .ok value
  else
    let capacity := shiftRightRoom value shift
    let shifted := shiftRightAbs value.limbs shift
    let result := if value.sign && shifted.2 then addU32InPlace shifted.1 capacity 1 else shifted.1
    finishIn capacity result (value.sign && !limbsIsZero result)

/-- `bigint_is_odd`. -/
def bigintIsOdd (value : Payload) : Bool :=
  value.limbs.getD 0 0 &&& 1 != 0

/-- The loop of `bigint_exp`. -/
def expLoop : Nat → Payload → Payload → Payload → Except String Payload
  | 0, result, _, _ => .ok result
  | fuel + 1, result, b, e =>
    if limbsIsZero e.limbs then .ok result
    else do
      let result ← (if bigintIsOdd e then bigintMul result b else .ok result)
      let b ← bigintMul b b
      let e ← bigintShiftRight e 1
      expLoop fuel result b e

/-- `bigint_exp`. The loop ends when no bit of the exponent is left. -/
def bigintExp (base exp : Payload) : Except String Payload :=
  if exp.sign then .error "Exponent must be positive"
  else if limbsIsZero exp.limbs then .ok (mkBigintLimbs [1] false)
  else expLoop (32 * exp.limbs.length) (mkBigintLimbs [1] false) base exp

end Model

section Magnitudes

theorem limbsToNat_replicate (count : Nat) : limbsToNat (List.replicate count 0) = 0 := by
  induction count with
  | zero => rfl
  | succ count ih => simp [List.replicate_succ, ih]

theorem limbsToNat_padLimbs (limbs : List UInt32) (count : Nat) :
    limbsToNat (padLimbs limbs count) = limbsToNat limbs := by
  rw [padLimbs, limbsToNat_append, limbsToNat_replicate, Nat.mul_zero, Nat.add_zero]

theorem length_padLimbs {limbs : List UInt32} {count : Nat} (shorter : limbs.length ≤ count) :
    (padLimbs limbs count).length = count := by
  rw [padLimbs, List.length_append, List.length_replicate]
  omega

theorem limbsToNat_addAbsLimbs (a b : List UInt32) :
    limbsToNat (addAbsLimbs a b) = limbsToNat a + limbsToNat b := by
  have lengthA := length_padLimbs (le_max_left a.length b.length)
  have lengthB := length_padLimbs (le_max_right a.length b.length)
  have small : (0 : UInt64).toNat ≤ 1 := Nat.zero_le 1
  obtain ⟨value, carry_le⟩ := addBackLoop_value small (lengthA.trans lengthB.symm)
  have length_eq := length_addBackLoop 0 (padLimbs a (max a.length b.length))
    (padLimbs b (max a.length b.length))
  rw [limbsToNat_padLimbs, limbsToNat_padLimbs, lengthB] at value
  unfold addAbsLimbs
  simp only
  split_ifs with noCarry
  · rw [noCarry] at value
    exact value
  · rw [limbsToNat_append, length_eq, lengthA, limbsToNat_cons, UInt64.toNat_toUInt32,
      Nat.mod_eq_of_lt (by omega)]
    exact value

theorem subLoop_value {a b : List UInt32}
    (borrow_le : borrow.toNat ≤ 1) (sameLength : a.length = b.length)
    (fits : limbsToNat b + borrow.toNat ≤ limbsToNat a) :
    limbsToNat (subLoop borrow a b) = limbsToNat a - limbsToNat b - borrow.toNat := by
  induction a generalizing borrow b with
  | nil =>
    cases b with
    | nil => simp [subLoop]
    | cons db b => simp at sameLength
  | cons da a ih =>
    cases b with
    | nil => simp at sameLength
    | cons db b =>
      have da_lt := da.toNat_lt
      have db_lt := db.toNat_lt
      have subtrahend : (db.toUInt64 + borrow).toNat = db.toNat + borrow.toNat := by
        rw [UInt64.toNat_add, UInt32.toNat_toUInt64]
        omega
      have sameRest := Nat.succ.inj sameLength
      simp only [limbsToNat_cons] at fits ⊢
      rw [subLoop]
      simp only [UInt64.lt_iff_toNat_lt, UInt32.toNat_toUInt64, subtrahend]
      split_ifs with less
      · have one : UInt64.toNat 1 = 1 := rfl
        have base : UInt64.toNat 0x100000000 = 2 ^ 32 := rfl
        rw [limbsToNat_cons, ih (by omega) sameRest (by omega), UInt64.toNat_toUInt32,
          UInt64.toNat_sub, subtrahend, UInt64.toNat_add, UInt32.toNat_toUInt64, base, one]
        omega
      · have zero : UInt64.toNat 0 = 0 := rfl
        rw [limbsToNat_cons, ih (by omega) sameRest (by omega), UInt64.toNat_toUInt32,
          UInt64.toNat_sub, subtrahend, UInt32.toNat_toUInt64, zero]
        omega

theorem limbsToNat_subAbsLimbs {a b : List UInt32} (shorter : b.length ≤ a.length)
    (fits : limbsToNat b ≤ limbsToNat a) :
    limbsToNat (subAbsLimbs a b) = limbsToNat a - limbsToNat b := by
  have small : (0 : UInt64).toNat ≤ 1 := Nat.zero_le 1
  rw [subAbsLimbs, subLoop_value small (length_padLimbs shorter).symm, limbsToNat_padLimbs]
  · rfl
  · rw [limbsToNat_padLimbs]
    exact fits

theorem toNat_and_low (word : UInt64) : (word &&& 0xFFFFFFFF).toNat = word.toNat % 2 ^ 32 := by
  exact Nat.and_two_pow_sub_one_eq_mod word.toNat 32

theorem length_carryLoop (carry : UInt64) (result : List UInt32) :
    (carryLoop carry result).length = result.length := by
  induction result generalizing carry with
  | nil => rfl
  | cons limb rest ih =>
    rw [carryLoop]
    split_ifs
    · rfl
    · simp [ih]

/-- What does not fit into the limbs is the only loss. -/
theorem limbsToNat_carryLoop {result : List UInt32}
    (fits : limbsToNat result + carry.toNat < (2 ^ 32) ^ result.length) :
    limbsToNat (carryLoop carry result) = limbsToNat result + carry.toNat := by
  induction result generalizing carry with
  | nil =>
    rw [List.length_nil, pow_zero] at fits
    simp only [carryLoop]
    omega
  | cons limb rest ih =>
    have limb_lt := limb.toNat_lt
    have carry_lt := carry.toNat_lt
    rw [List.length_cons, pow_succ, limbsToNat_cons] at fits
    rw [carryLoop, limbsToNat_cons]
    split_ifs with noCarry
    · rw [noCarry, limbsToNat_cons]
      rfl
    · have cur_value : (limb.toUInt64 + (carry &&& 0xFFFFFFFF)).toNat =
          limb.toNat + carry.toNat % 2 ^ 32 := by
        rw [UInt64.toNat_add, toNat_and_low, UInt32.toNat_toUInt64]
        omega
      generalize limb.toUInt64 + (carry &&& 0xFFFFFFFF) = cur at cur_value ⊢
      have next_value : ((carry >>> 32) + (cur >>> 32)).toNat =
          carry.toNat / 2 ^ 32 + cur.toNat / 2 ^ 32 := by
        rw [UInt64.toNat_add, toNat_shiftRight_32, toNat_shiftRight_32]
        omega
      rw [limbsToNat_cons, ih (by omega), UInt64.toNat_toUInt32, next_value]
      omega

theorem length_mulRow (factor : UInt32) (carry : UInt64) (b result : List UInt32) :
    (mulRow factor carry b result).length = result.length := by
  induction b generalizing carry result with
  | nil => simp only [mulRow, length_carryLoop]
  | cons limb b ih =>
    cases result with
    | nil => rfl
    | cons old result => simp [mulRow, ih]

theorem limbsToNat_mulRow {factor : UInt32} {carry : UInt64} {b result : List UInt32}
    (fits : limbsToNat result + factor.toNat * limbsToNat b + carry.toNat <
      (2 ^ 32) ^ result.length) :
    limbsToNat (mulRow factor carry b result) =
      limbsToNat result + factor.toNat * limbsToNat b + carry.toNat := by
  induction b generalizing carry result with
  | nil =>
    rw [limbsToNat_nil, Nat.mul_zero, Nat.add_zero] at fits ⊢
    rw [mulRow, limbsToNat_carryLoop fits]
    simp
  | cons limb b ih =>
    cases result with
    | nil =>
      rw [List.length_nil, pow_zero] at fits
      simp only [mulRow, carryLoop, limbsToNat_nil] at fits ⊢
      omega
    | cons old result =>
      have product_le : factor.toNat * limb.toNat ≤ (2 ^ 32 - 1) * (2 ^ 32 - 1) :=
        Nat.mul_le_mul (Nat.le_sub_one_of_lt factor.toNat_lt) (Nat.le_sub_one_of_lt limb.toNat_lt)
      have old_lt := old.toNat_lt
      have carry_lt := carry.toNat_lt
      have prod_value : (factor.toUInt64 * limb.toUInt64).toNat = factor.toNat * limb.toNat := by
        rw [UInt64.toNat_mul, UInt32.toNat_toUInt64, UInt32.toNat_toUInt64]
        omega
      simp only [limbsToNat_cons, List.length_cons, pow_succ (2 ^ 32), Nat.mul_add,
        Nat.mul_left_comm factor.toNat] at fits ⊢
      simp only [mulRow]
      generalize factor.toUInt64 * limb.toUInt64 = prod at prod_value ⊢
      have lo_value : (old.toUInt64 + (prod &&& 0xFFFFFFFF) + (carry &&& 0xFFFFFFFF)).toNat =
          old.toNat + prod.toNat % 2 ^ 32 + carry.toNat % 2 ^ 32 := by
        rw [UInt64.toNat_add, UInt64.toNat_add, toNat_and_low, toNat_and_low, UInt32.toNat_toUInt64]
        omega
      generalize old.toUInt64 + (prod &&& 0xFFFFFFFF) + (carry &&& 0xFFFFFFFF) = lo
        at lo_value ⊢
      have next_value : ((prod >>> 32) + (carry >>> 32) + (lo >>> 32)).toNat =
          prod.toNat / 2 ^ 32 + carry.toNat / 2 ^ 32 + lo.toNat / 2 ^ 32 := by
        rw [UInt64.toNat_add, UInt64.toNat_add, toNat_shiftRight_32, toNat_shiftRight_32,
          toNat_shiftRight_32]
        omega
      rw [limbsToNat_cons, ih (by omega), UInt64.toNat_toUInt32, next_value]
      omega

theorem limbsToNat_mulRows {a b result : List UInt32}
    (fits : limbsToNat result + limbsToNat a * limbsToNat b < (2 ^ 32) ^ result.length) :
    limbsToNat (mulRows b a result) = limbsToNat result + limbsToNat a * limbsToNat b := by
  induction a generalizing result with
  | nil => simp [mulRows]
  | cons factor a ih =>
    have zero : UInt64.toNat 0 = 0 := rfl
    simp only [limbsToNat_cons, Nat.add_mul, Nat.mul_assoc] at fits ⊢
    have row_value := @limbsToNat_mulRow factor 0 b result (by omega)
    have row_length := length_mulRow factor 0 b result
    rw [mulRows]
    cases row_eq : mulRow factor 0 b result with
    | nil =>
      rw [row_eq] at row_length
      rw [← row_length, List.length_nil, pow_zero] at fits
      simp only [limbsToNat_nil]
      omega
    | cons limb rest =>
      rw [row_eq] at row_length row_value
      rw [← row_length, List.length_cons, pow_succ (2 ^ 32)] at fits
      rw [limbsToNat_cons] at row_value
      simp only [limbsToNat_cons]
      rw [ih (by omega)]
      omega

theorem limbsToNat_mulAbsLimbs (a b : List UInt32) :
    limbsToNat (mulAbsLimbs a b) = limbsToNat a * limbsToNat b := by
  unfold mulAbsLimbs
  split
  · next x y =>
      have product_le : x.toNat * y.toNat ≤ (2 ^ 32 - 1) * (2 ^ 32 - 1) :=
        Nat.mul_le_mul (Nat.le_sub_one_of_lt x.toNat_lt) (Nat.le_sub_one_of_lt y.toNat_lt)
      have product_value : (x.toUInt64 * y.toUInt64).toNat = x.toNat * y.toNat := by
        rw [UInt64.toNat_mul, UInt32.toNat_toUInt64, UInt32.toNat_toUInt64]
        omega
      have high_value := toNat_shiftRight_32 (x.toUInt64 * y.toUInt64)
      simp only [← UInt32.toNat_inj, UInt64.toNat_toUInt32, UInt32.toNat_zero]
      split_ifs with noHigh
      all_goals
        simp only [limbsToNat_cons, limbsToNat_nil, UInt64.toNat_toUInt32, Nat.mul_zero,
          Nat.add_zero]
        omega
  · have product_lt : limbsToNat a * limbsToNat b < (2 ^ 32) ^ (a.length + b.length) := by
      rw [pow_add]
      exact Nat.mul_lt_mul'' (limbsToNat_lt a) (limbsToNat_lt b)
    rw [limbsToNat_mulRows, limbsToNat_replicate, Nat.zero_add]
    rw [limbsToNat_replicate, List.length_replicate, pow_succ]
    omega

end Magnitudes

section Shifts

variable {limbs : List UInt32}

theorem any_ne_zero_iff (limbs : List UInt32) :
    limbs.any (· != 0) = true ↔ limbsToNat limbs ≠ 0 := by
  induction limbs with
  | nil => simp
  | cons limb rest ih =>
    rw [List.any_cons, Bool.or_eq_true, ih, bne_iff_ne, Ne, ← UInt32.toNat_inj, limbsToNat_cons,
      UInt32.toNat_zero]
    omega

theorem shiftRightAbs_value (limbs : List UInt32) (shift : Nat) :
    limbsToNat (shiftRightAbs limbs shift).1 = limbsToNat limbs / 2 ^ shift ∧
      ((shiftRightAbs limbs shift).2 = true ↔ limbsToNat limbs % 2 ^ shift ≠ 0) := by
  have weight : 2 ^ shift = (2 ^ 32) ^ (shift / 32) * 2 ^ (shift % 32) := by
    rw [← pow_mul, ← pow_add, Nat.div_add_mod]
  unfold shiftRightAbs
  split_ifs with all whole
  · have less : limbsToNat limbs < 2 ^ shift := by
      refine (limbsToNat_lt limbs).trans_le (weight ▸ ?_)
      exact (Nat.pow_le_pow_right (by norm_num) all).trans
        (Nat.le_mul_of_pos_right _ (by positivity))
    rw [Nat.div_eq_of_lt less, Nat.mod_eq_of_lt less]
    exact ⟨rfl, any_ne_zero_iff limbs⟩
  all_goals
    have split := limbsToNat_split limbs (shift / 32)
    have low_lt := limbsToNat_take_lt limbs (shift / 32)
    have high := limbsToNat_drop limbs (shift / 32)
    have low : limbsToNat (limbs.take (shift / 32)) =
        limbsToNat limbs % (2 ^ 32) ^ (shift / 32) := by
      rw [split, Nat.add_mul_mod_self_left, Nat.mod_eq_of_lt low_lt]
    simp only [limbsToNat_normalizeLimbs]
    rw [weight, ← Nat.div_div_eq_div_mul, ← high, Nat.mod_mul, ← low, ← high]
  · rw [whole, pow_zero, Nat.div_one, Nat.mod_one, Nat.mul_zero, Nat.add_zero]
    exact ⟨rfl, any_ne_zero_iff _⟩
  · have amount : (UInt32.ofNat (shift % 32)).toNat = shift % 32 :=
      toNat_ofNat_shift (Nat.mod_lt _ (by norm_num))
    obtain ⟨value, lost_lt⟩ := @shiftRightLoop_value (UInt32.ofNat (shift % 32)) (by omega)
      (by omega) (limbs.drop (shift / 32))
    rw [amount] at value lost_lt
    have lost : (shiftRightLoop (UInt32.ofNat (shift % 32)) (limbs.drop (shift / 32))).2.toNat =
        limbsToNat (limbs.drop (shift / 32)) % 2 ^ (shift % 32) := by
      rw [value, Nat.mul_add_mod', Nat.mod_eq_of_lt lost_lt]
    constructor
    · conv_rhs => rw [value]
      rw [Nat.mul_comm, Nat.mul_add_div (by positivity), Nat.div_eq_of_lt lost_lt, Nat.add_zero]
    · have positive : (2 ^ 32) ^ (shift / 32) ≠ 0 := by positivity
      rw [Bool.or_eq_true, any_ne_zero_iff, bne_iff_ne, Ne, Ne, ← UInt32.toNat_inj,
        UInt32.toNat_zero, lost, Ne, Nat.add_eq_zero_iff, Nat.mul_eq_zero, not_and_or, not_or]
      simp only [positive, not_false_eq_true, true_and]

theorem limbsToNat_addU32InPlace (fits : limbsToNat limbs + value.toNat < (2 ^ 32) ^ capacity) :
    limbsToNat (addU32InPlace limbs capacity value) = limbsToNat limbs + value.toNat := by
  have small : value.toUInt64.toNat < 2 ^ 32 := value.toNat_lt
  obtain ⟨sum, carry_lt⟩ := @mulAddLoop_value 1 value.toUInt64 (by decide) small limbs
  have one : UInt64.toNat 1 = 1 := rfl
  rw [one, Nat.mul_one, UInt32.toNat_toUInt64] at sum
  unfold addU32InPlace
  simp only [limbsToNat_normalizeLimbs]
  split_ifs with grows
  · rw [limbsToNat_append, length_mulAddLoop, limbsToNat_cons, UInt64.toNat_toUInt32,
      Nat.mod_eq_of_lt carry_lt]
    exact sum
  · -- A carry out of limbs that fill the capacity would not fit.
    have noCarry : (mulAddLoop 1 value.toUInt64 limbs).2.toNat = 0 := by
      by_contra carries
      have full : capacity ≤ limbs.length := by
        by_contra room
        exact grows ⟨fun none => carries (by rw [none]; rfl), by omega⟩
      have weights := Nat.pow_le_pow_right (show 0 < 2 ^ 32 by norm_num) full
      have carried := Nat.le_mul_of_pos_right ((2 ^ 32) ^ limbs.length) (Nat.pos_of_ne_zero carries)
      omega
    rw [noCarry] at sum
    exact sum

end Shifts

section Integers

variable {a b : Payload}

/-- The number of limbs for a magnitude. -/
def limbCount (magnitude : Nat) : Nat :=
  Nat.log (2 ^ 32) magnitude + 1

/-- A payload has no more limbs than its magnitude needs. -/
theorem Payload.length_limbs (value : Payload) :
    value.limbs.length = limbCount value.magnitude := by
  obtain ⟨count, length_eq⟩ : ∃ count, value.limbs.length = count + 1 :=
    ⟨value.limbs.length - 1, (Nat.sub_add_cancel (length_pos_iff.mpr value.nonempty)).symm⟩
  have upper : value.magnitude < (2 ^ 32) ^ (count + 1) := length_eq ▸ limbsToNat_lt value.limbs
  rw [limbCount, length_eq]
  rcases Nat.eq_zero_or_pos count with rfl | several
  · rw [Nat.log_of_lt (by simpa using upper)]
  · have top := top_ne_zero_of_normalized value.normalized (by omega)
    rw [length_eq, Nat.add_sub_cancel] at top
    have lower := pow_le_limbsToNat_take (by omega) top
    rw [take_of_length_le length_eq.le] at lower
    change (2 ^ 32) ^ count ≤ value.magnitude at lower
    rw [Nat.log_eq_of_pow_le_of_lt_pow lower upper]

theorem limbCount_mono (le : less ≤ more) : limbCount less ≤ limbCount more :=
  Nat.add_le_add_right (Nat.log_mono_right le) 1

theorem limbCount_max_one (magnitude : Nat) : limbCount (max 1 magnitude) =
    limbCount magnitude := by
  rcases Nat.eq_zero_or_pos magnitude with rfl | positive
  · simp [limbCount]
  · rw [max_eq_right positive]

/-- A BigInt is determined by its integer. -/
theorem toInt_injective : Function.Injective Payload.toInt := by
  intro a b same
  have magnitudes : a.magnitude = b.magnitude := by
    rw [← a.natAbs_toInt, ← b.natAbs_toInt, same]
  have lengths : a.limbs.length = b.limbs.length := by
    rw [a.length_limbs, b.length_limbs, magnitudes]
  have small (limbs : List UInt32) : ∀ digit ∈ limbs.map UInt32.toNat, digit < 2 ^ 32 := by
    intro digit isIn
    obtain ⟨limb, _, rfl⟩ := mem_map.mp isIn
    exact limb.toNat_lt
  have limbs : a.limbs = b.limbs :=
    map_injective_iff.mpr (fun _ _ => UInt32.toNat_inj.mp)
      (Nat.ofDigits_inj_of_len_eq (by norm_num) (by simpa using lengths) (small _) (small _)
        magnitudes)
  have signs : a.sign = b.sign := by rw [a.sign_eq, b.sign_eq, same]
  cases a
  cases b
  cases limbs
  cases signs
  rfl

theorem limbsToNat_subAbsLimbs_of_le (le : b.magnitude ≤ a.magnitude) :
    limbsToNat (subAbsLimbs a.limbs b.limbs) = a.magnitude - b.magnitude := by
  refine limbsToNat_subAbsLimbs ?_ le
  rw [a.length_limbs, b.length_limbs]
  exact limbCount_mono le

/-- An operation that computes an integer in room for some limbs: it gives the integer if the
limbs can be counted, and an error if not. -/
def Computes (outcome : Except String Payload) (value : Int) (room : Nat) : Prop :=
  if room ≤ maxLimbs then ∃ result, outcome = .ok result ∧ result.toInt = value
  else outcome = .error "oom"

theorem Computes.exists_of_le {outcome : Except String Payload}
    (computes : Computes outcome value room) (fits : room ≤ maxLimbs) :
    ∃ result, outcome = .ok result ∧ result.toInt = value := by
  rwa [Computes, if_pos fits] at computes

theorem computes_ok (result : Payload) : Computes (.ok result) result.toInt 0 :=
  ⟨result, rfl, rfl⟩

theorem computes_finishIn {limbs : List UInt32}
    (isValue : (mkBigintLimbs limbs negative).toInt = value) (capacity : Nat) :
    Computes (finishIn capacity limbs negative) value capacity := by
  unfold Computes finishIn
  split_ifs with fits exceeds
  · omega
  · exact ⟨_, rfl, isValue⟩
  · rfl
  · omega

/-- Two operations one behind the other need the room of the larger. -/
theorem Computes.bind {outcome : Except String Payload} {next : Payload → Except String Payload}
    (first : Computes outcome value room)
    (second : room ≤ maxLimbs → ∀ result, result.toInt = value →
      Computes (next result) final later) :
    Computes (outcome >>= next) final (max room later) := by
  by_cases fits : room ≤ maxLimbs
  · obtain ⟨result, rfl, isValue⟩ := first.exists_of_le fits
    have computes := second fits result isValue
    unfold Computes at computes ⊢
    simp only [max_le_iff, fits, true_and]
    exact computes
  · rw [Computes, if_neg fits] at first
    rw [Computes, if_neg (by omega), first]
    rfl

/-- The room for a sum, with the sign that the second operand counts with. -/
def sumRoom (a b : Payload) (bneg : Bool) : Nat :=
  max a.limbs.length b.limbs.length + if a.sign = bneg then 1 else 0

theorem computes_addSigned (a b : Payload) (bneg : Bool) :
    Computes (addSigned a bneg b.limbs)
      (a.toInt + if bneg then -(b.magnitude : Int) else b.magnitude) (sumRoom a b bneg) := by
  have less := cmpAbsLimbs_neg_iff a.nonempty b.nonempty
  change _ ↔ a.magnitude < b.magnitude at less
  rw [addSigned, Payload.toInt.eq_1 a, sumRoom]
  by_cases same : a.sign = bneg
  · rw [if_pos same, if_pos same]
    refine computes_finishIn ?_ _
    rw [toInt_mkBigintLimbs, limbsToNat_addAbsLimbs, same]
    cases bneg <;> simp [Payload.magnitude, Int.add_comm]
  · rw [if_neg same, if_neg same, Nat.add_zero, a.length_limbs, b.length_limbs]
    by_cases notLess : 0 ≤ cmpAbsLimbs a.limbs b.limbs
    · have le : b.magnitude ≤ a.magnitude := by omega
      rw [if_pos notLess, max_eq_left (limbCount_mono le)]
      refine computes_finishIn ?_ _
      rw [toInt_mkBigintLimbs, limbsToNat_subAbsLimbs_of_le le]
      cases signA : a.sign <;> cases bneg <;> simp [signA] at same ⊢ <;> omega
    · have le : a.magnitude ≤ b.magnitude := by omega
      rw [if_neg notLess, max_eq_right (limbCount_mono le)]
      refine computes_finishIn ?_ _
      rw [toInt_mkBigintLimbs, limbsToNat_subAbsLimbs_of_le le]
      cases signA : a.sign <;> cases bneg <;> simp [signA] at same ⊢ <;> omega

theorem computes_bigintSub (a b : Payload) :
    Computes (bigintSub a b) (a.toInt - b.toInt) (sumRoom a b !b.sign) := by
  have difference : a.toInt - b.toInt =
      a.toInt + if !b.sign then -(b.magnitude : Int) else b.magnitude := by
    rw [Payload.toInt.eq_1 b, Int.sub_eq_add_neg]
    cases b.sign <;> simp
  rw [difference]
  exact computes_addSigned a b !b.sign

theorem computes_bigintMul (a b : Payload) :
    Computes (bigintMul a b) (a.toInt * b.toInt) (a.limbs.length + b.limbs.length + 1) := by
  have product : limbsToNat (mulAbsLimbs a.limbs b.limbs) = a.magnitude * b.magnitude :=
    limbsToNat_mulAbsLimbs _ _
  refine computes_finishIn ?_ _
  rw [toInt_mkBigintLimbs, product, Payload.toInt, Payload.toInt]
  cases a.sign <;> cases b.sign <;> simp

theorem computes_bigintNeg (a : Payload) :
    Computes (bigintNeg a) (-a.toInt) a.limbs.length := by
  refine computes_finishIn ?_ _
  rw [toInt_mkBigintLimbs, Payload.toInt]
  cases a.sign <;> simp [Payload.magnitude]

/-- The room holds the quotient and a carry. -/
theorem quotient_lt_room (value : Payload) (shift : Nat) (isNegative : value.sign = true) :
    value.magnitude / 2 ^ shift + 1 < (2 ^ 32) ^ shiftRightRoom value shift := by
  have bound : value.magnitude < _ := limbsToNat_lt value.limbs
  rw [shiftRightRoom, if_pos isNegative, ← pow_mul]
  rw [← pow_mul] at bound
  split_ifs with all
  · have less := bound.trans_le (Nat.pow_le_pow_right (by norm_num)
      (show 32 * value.limbs.length ≤ shift by omega))
    rw [Nat.div_eq_of_lt less]
    norm_num
  · have kept : value.magnitude / 2 ^ shift < 2 ^ (32 * (value.limbs.length - shift / 32)) := by
      apply Nat.div_lt_of_lt_mul
      rw [← pow_add]
      exact bound.trans_le (Nat.pow_le_pow_right (by norm_num) (by omega))
    generalize value.magnitude / 2 ^ shift = quotient at kept ⊢
    rw [Nat.mul_succ, pow_add]
    omega

/-- Shifting rounds down, for either sign. -/
theorem computes_bigintShiftRight (value : Payload) (shift : Nat) :
    Computes (bigintShiftRight value shift) (value.toInt / 2 ^ shift)
      (if shift = 0 ∨ limbsIsZero value.limbs then 0 else shiftRightRoom value shift) := by
  obtain ⟨quotient, truncated⟩ := shiftRightAbs_value value.limbs shift
  change limbsToNat _ = value.magnitude / 2 ^ shift at quotient
  change _ ↔ value.magnitude % 2 ^ shift ≠ 0 at truncated
  rw [bigintShiftRight]
  by_cases unchanged : shift = 0 ∨ limbsIsZero value.limbs = true
  · have same : value.toInt / 2 ^ shift = value.toInt := by
      rcases unchanged with rfl | isZero
      · simp
      · rw [(Payload.limbsIsZero_iff_toInt value).mp isZero, Int.zero_ediv]
    rw [if_pos unchanged, if_pos unchanged, same]
    exact computes_ok value
  rw [if_neg unchanged, if_neg unchanged]
  refine computes_finishIn ?_ _
  rw [toInt_mkBigintLimbs_and, Payload.toInt]
  cases sign : value.sign with
  | false => simp [quotient]
  | true =>
    have rounded : -(value.magnitude : Int) / 2 ^ shift =
        -((value.magnitude / 2 ^ shift : Nat) : Int) -
          if value.magnitude % 2 ^ shift = 0 then 0 else 1 := by
      rw [Int.neg_ediv, Int.sign_eq_one_of_pos (by positivity)]
      simp only [← Nat.dvd_iff_mod_eq_zero, ← Int.natCast_dvd_natCast]
      push_cast
      rfl
    simp only [Bool.true_and, if_true]
    rw [rounded]
    by_cases lost : (shiftRightAbs value.limbs shift).2 = true
    · have fits := quotient_lt_room value shift sign
      rw [← quotient] at fits
      rw [if_pos lost, if_neg (truncated.mp lost), limbsToNat_addU32InPlace fits, quotient]
      push_cast
      omega
    · rw [if_neg lost, if_pos (not_not.mp (mt truncated.mpr lost)), quotient, Int.sub_zero]

end Integers

section Powers

theorem bigintIsOdd_iff (value : Payload) :
    bigintIsOdd value = true ↔ value.magnitude % 2 = 1 := by
  rw [bigintIsOdd, bne_iff_ne, Payload.magnitude]
  cases limbs_eq : value.limbs with
  | nil => exact absurd limbs_eq value.nonempty
  | cons limb rest =>
    rw [Ne, ← UInt32.toNat_inj, UInt32.toNat_and, limbsToNat_cons]
    change ¬limb.toNat &&& 1 = 0 ↔ _
    rw [Nat.and_one_is_mod]
    omega

theorem magnitude_of_mul {a b product : Payload} (isProduct : product.toInt = a.toInt * b.toInt) :
    product.magnitude = a.magnitude * b.magnitude := by
  rw [← product.natAbs_toInt, isProduct, Int.natAbs_mul, a.natAbs_toInt, b.natAbs_toInt]

/-- With the factors of a turn the result stays no greater than the base. -/
theorem mul_pow_mod_two_le (le : result ≤ max 1 base) (exponent : Nat) :
    result * base ^ (exponent % 2) ≤ max 1 (base * base) := by
  rcases Nat.eq_zero_or_pos base with rfl | positive
  · rcases Nat.mod_two_eq_zero_or_one exponent with even | odd
    · simpa [even] using le
    · simp [odd]
  · rw [max_eq_right positive] at le
    rw [max_eq_right (Nat.mul_pos positive positive)]
    rcases Nat.mod_two_eq_zero_or_one exponent with even | odd
    · rw [even, pow_zero, mul_one]
      exact le.trans (Nat.le_mul_of_pos_right _ positive)
    · rw [odd, pow_one]
      exact Nat.mul_le_mul_right _ le

/-- The multiplication of a turn. -/
theorem computes_multiplied (exp result base : Payload) :
    Computes (if bigintIsOdd exp then bigintMul result base else .ok result)
      (result.toInt * base.toInt ^ (exp.magnitude % 2))
      (if bigintIsOdd exp then result.limbs.length + base.limbs.length + 1 else 0) := by
  have odd := bigintIsOdd_iff exp
  split_ifs with isOdd
  · rw [odd.mp isOdd, pow_one]
    exact computes_bigintMul result base
  · have even : exp.magnitude % 2 = 0 := Nat.mod_two_ne_one.mp (mt odd.mpr isOdd)
    rw [even, pow_zero, mul_one]
    exact computes_ok result

/-- The room for a power. The loop squares once more than it has to, also after the top bit of
the exponent. -/
def powerRoom (base exponent : Nat) : Nat :=
  if exponent = 0 then 0 else 2 * limbCount (base ^ 2 ^ Nat.log 2 exponent) + 1

/-- The square of a turn and the rest of the loop. -/
theorem max_powerRoom (base : Nat) (positive : exponent ≠ 0) :
    max (2 * limbCount base + 1) (powerRoom (base * base) (exponent / 2)) =
      powerRoom base exponent := by
  rw [powerRoom, powerRoom, if_neg positive, Nat.log_div_base]
  split_ifs with last
  · rw [Nat.log_of_lt (by omega), pow_zero, pow_one, max_eq_left (Nat.zero_le _)]
  · obtain ⟨bits, bits_eq⟩ : ∃ bits, Nat.log 2 exponent = bits + 1 :=
      ⟨Nat.log 2 exponent - 1, (Nat.sub_add_cancel (Nat.log_pos (by norm_num) (by omega))).symm⟩
    have power : (base * base) ^ 2 ^ bits = base ^ 2 ^ (bits + 1) := by
      rw [← pow_two, ← pow_mul, ← pow_succ']
    rw [bits_eq, Nat.add_sub_cancel, power, max_eq_right]
    have grows := limbCount_mono (Nat.le_self_pow (show 2 ^ (bits + 1) ≠ 0 by positivity) base)
    omega

/-- The loop multiplies by the power that is left. What it has multiplied so far is not longer
than the base, so that its squares take the most room. -/
theorem computes_expLoop {fuel exponent : Nat} {result base exp : Payload}
    (isExponent : exp.toInt = exponent) (stored : exp.limbs.length ≤ maxLimbs)
    (enough : exponent < 2 ^ fuel) (shorter : result.magnitude ≤ max 1 base.magnitude) :
    Computes (expLoop fuel result base exp) (result.toInt * base.toInt ^ exponent)
      (powerRoom base.magnitude exponent) := by
  induction fuel generalizing exponent result base exp with
  | zero =>
    obtain rfl : exponent = 0 := by omega
    simpa [expLoop, powerRoom] using computes_ok result
  | succ fuel ih =>
    have magnitude : exp.magnitude = exponent := by
      rw [← exp.natAbs_toInt, isExponent, Int.natAbs_natCast]
    have isZero_iff : limbsIsZero exp.limbs = true ↔ exponent = 0 := by
      rw [Payload.limbsIsZero_iff_toInt, isExponent, Int.natCast_eq_zero]
    rw [expLoop]
    by_cases isZero : exponent = 0
    · rw [if_pos (isZero_iff.mpr isZero), isZero, pow_zero, mul_one]
      exact computes_ok result
    rw [if_neg (mt isZero_iff.mp isZero)]
    have half : ∃ halved, bigintShiftRight exp 1 = .ok halved ∧
        halved.toInt = (exponent / 2 : Nat) ∧ halved.limbs.length ≤ maxLimbs := by
      have notNegative : exp.sign = false := by simp [exp.sign_eq, isExponent]
      have room : shiftRightRoom exp 1 ≤ exp.limbs.length := by
        have positive := length_pos_iff.mpr exp.nonempty
        rw [shiftRightRoom, notNegative, if_neg Bool.false_ne_true]
        split_ifs <;> omega
      obtain ⟨halved, halved_eq, value⟩ :=
        (computes_bigintShiftRight exp 1).exists_of_le (by split_ifs <;> omega)
      have isHalf : halved.toInt = (exponent / 2 : Nat) := by
        rw [value, isExponent]
        simp
      have smaller : halved.magnitude ≤ exp.magnitude := by
        rw [← halved.natAbs_toInt, isHalf, magnitude]
        exact Nat.div_le_self _ _
      refine ⟨halved, halved_eq, isHalf, ?_⟩
      rw [halved.length_limbs]
      exact (limbCount_mono smaller).trans (exp.length_limbs ▸ stored)
    obtain ⟨halved, halved_eq, isHalf, halfStored⟩ := half
    have room : max (if bigintIsOdd exp then result.limbs.length + base.limbs.length + 1 else 0)
        (max (base.limbs.length + base.limbs.length + 1)
          (powerRoom (base.magnitude * base.magnitude) (exponent / 2))) =
        powerRoom base.magnitude exponent := by
      have lengths : result.limbs.length ≤ base.limbs.length := by
        rw [result.length_limbs, base.length_limbs]
        exact (limbCount_mono shorter).trans_eq (limbCount_max_one _)
      rw [← max_powerRoom base.magnitude isZero, ← base.length_limbs, ← two_mul]
      refine max_eq_right (le_max_of_le_left ?_)
      split_ifs <;> omega
    rw [← room]
    refine (computes_multiplied exp result base).bind fun _ next nextValue => ?_
    refine (computes_bigintMul base base).bind fun _ square squareValue => ?_
    have squared := magnitude_of_mul squareValue
    have power : result.toInt * base.toInt ^ exponent =
        next.toInt * square.toInt ^ (exponent / 2) := by
      rw [nextValue, squareValue, magnitude, ← pow_two, ← pow_mul, mul_assoc, ← pow_add,
        Nat.mod_add_div]
    rw [power, ← squared, halved_eq]
    refine ih isHalf halfStored (by omega) ?_
    rw [squared, ← next.natAbs_toInt, nextValue, Int.natAbs_mul, Int.natAbs_pow,
      result.natAbs_toInt, base.natAbs_toInt]
    exact mul_pow_mod_two_le shorter _

/-- Powers with a nonnegative exponent. -/
theorem computes_bigintExp {a b : Payload} (stored : b.limbs.length ≤ maxLimbs)
    (nonneg : 0 ≤ b.toInt) :
    Computes (bigintExp a b) (a.toInt ^ b.toInt.toNat) (powerRoom a.magnitude b.magnitude) := by
  obtain ⟨exponent, isExponent⟩ := Int.eq_ofNat_of_zero_le nonneg
  have notNegative : b.sign = false := by
    rw [b.sign_eq]
    simpa using nonneg
  have magnitude : b.magnitude = exponent := by
    rw [← b.natAbs_toInt, isExponent, Int.natAbs_natCast]
  have one : (mkBigintLimbs [1] false).toInt = 1 := by decide
  rw [bigintExp, notNegative, if_neg Bool.false_ne_true, magnitude, isExponent, Int.toNat_natCast]
  split_ifs with isZero
  · rw [Payload.limbsIsZero_iff_toInt, isExponent, Int.natCast_eq_zero] at isZero
    rw [isZero, pow_zero, ← one]
    exact computes_ok _
  · have enough : exponent < 2 ^ (32 * b.limbs.length) := by
      rw [← magnitude, pow_mul]
      exact limbsToNat_lt b.limbs
    have start : (mkBigintLimbs [1] false).magnitude ≤ max 1 a.magnitude :=
      le_max_of_le_left (by decide)
    have computes := computes_expLoop isExponent stored enough start
    rwa [one, one_mul] at computes

/-- The operations give what the integers give, or find that there is no room for it; the
comparison is the order of the integers, and equal integers are equal BigInts. -/
structure ComputesExactly (a b : Payload) : Prop where
  add : Computes (bigintAdd a b) (a.toInt + b.toInt) (sumRoom a b b.sign)
  sub : Computes (bigintSub a b) (a.toInt - b.toInt) (sumRoom a b !b.sign)
  mul : Computes (bigintMul a b) (a.toInt * b.toInt) (a.limbs.length + b.limbs.length + 1)
  neg : ∃ result, bigintNeg a = .ok result ∧ result.toInt = -a.toInt
  exp : 0 ≤ b.toInt →
    Computes (bigintExp a b) (a.toInt ^ b.toInt.toNat) (powerRoom a.magnitude b.magnitude)
  less : bigintCompare a b < 0 ↔ a.toInt < b.toInt
  equal : bigintCompare a b = 0 ↔ a.toInt = b.toInt
  greater : 0 < bigintCompare a b ↔ b.toInt < a.toInt
  unique : a.toInt = b.toInt ↔ a = b

/-- The room for a power of two to a power of two. -/
theorem powerRoom_two_pow (bits : Nat) : powerRoom 2 (2 ^ (bits + 5)) = 2 * (2 ^ bits + 1) + 1 := by
  have power : 2 ^ 2 ^ (bits + 5) = (2 ^ 32) ^ 2 ^ bits := by
    rw [← pow_mul, pow_add, Nat.mul_comm, show 2 ^ 5 = 32 from rfl]
  rw [powerRoom, if_neg (by positivity), Nat.log_pow (by norm_num), limbCount, power,
    Nat.log_pow (by norm_num)]

/-- The room is not there for a power of two whose square has too many limbs. -/
theorem bigintExp_eq_error {a b : Payload} (stored : b.limbs.length ≤ maxLimbs)
    (nonneg : 0 ≤ b.toInt) (isTwo : a.magnitude = 2) (isPower : b.magnitude = 2 ^ (bits + 5))
    (tooLong : maxLimbs < 2 * (2 ^ bits + 1) + 1) : bigintExp a b = .error "oom" := by
  have computes := @computes_bigintExp a b stored nonneg
  rwa [Computes, isTwo, isPower, powerRoom_two_pow, if_neg (Nat.not_le.mpr tooLong)] at computes

end Powers

end AntRuntime.BigInt
