import AntRuntime.BigInt.Conversion

/-!
# Comparing a BigInt with a Number

The relational operators turn the number rounded down into a BigInt, which is exact. The
operator `==` prints the number into a buffer that has room for 63 characters and reads
the text back, so it compares with the first 63 digits of a longer number, and with an
error value if the number is negative zero.
-/

namespace AntRuntime.BigInt

open Numeral
open Floats (Double)

section Model

/-- `snprintf` with `"%.0f"` of a whole double. -/
def printFixed (num : Double) : List UInt8 :=
  (if num.negative then [45] else []) ++ print 10 num.whole

/-- How many characters `buf` has room for before the terminator. -/
def bufferRoom : Nat := 63

/-- The case of `sv_abstract_eq` for a BigInt and a number. There is no result if the
text is not a BigInt: `bigint_compare` then reads an error value. -/
def svAbstractEq (bigint : Payload) (num : Double) : Option Bool :=
  if num.isFinite && num.eq num.trunc then
    let neg := num.negative && !num.eq (.zero false)
    let buf := (printFixed (if neg then num.neg else num)).take bufferRoom
    (jsMkbigint buf neg).map fun other => bigintCompare bigint other == 0
  else some false

/-- `sv_rel_op_t`. -/
inductive RelOp
  | lt
  | le
  | gt
  | ge

/-- `sv_bigint_compare_number`: whether the operands are ordered and how they compare. An
error is `none`. -/
def svBigintCompareNumber (bigint : Payload) (num : Double) : Option (Bool × Int) :=
  if num.isNan then some (false, 0)
  else if num.isInf then some (true, if num.negative then 1 else -1)
  else
    (bigintFromIntegralDouble num.floor).map fun other =>
      let cmp := bigintCompare bigint other
      (true, if !num.floor.eq num && cmp == 0 then -1 else cmp)

/-- `sv_rel_from_bigint_cmp`. -/
def svRelFromBigintCmp (cmp : Int) (leftIsBigint : Bool) : RelOp → Bool
  | .lt => if leftIsBigint then cmp < 0 else cmp > 0
  | .le => if leftIsBigint then cmp ≤ 0 else cmp ≥ 0
  | .gt => if leftIsBigint then cmp > 0 else cmp < 0
  | .ge => if leftIsBigint then cmp ≥ 0 else cmp ≤ 0

/-- The case of `sv_push_bigint_relational` for a BigInt and a number, on either side. -/
def svPushBigintRelational (bigint : Payload) (num : Double) (leftIsBigint : Bool) (op : RelOp) :
    Option Bool :=
  (svBigintCompareNumber bigint num).map fun result =>
    result.1 && svRelFromBigintCmp result.2 leftIsBigint op

end Model

section Mathematics

/-- The integer is below the number. -/
def Below (b : Int) (num : Double) : Prop :=
  if num.isInf then num.negative = false else num.isNan = false ∧ (b : ℚ) < num.value

/-- The integer is the number. -/
def Same (b : Int) (num : Double) : Prop :=
  num.isFinite = true ∧ (b : ℚ) = num.value

/-- The integer is above the number. -/
def Above (b : Int) (num : Double) : Prop :=
  if num.isInf then num.negative = true else num.isNan = false ∧ num.value < (b : ℚ)

/-- What an operator means for an integer and a number. -/
def Related (b : Int) (num : Double) (leftIsInteger : Bool) : RelOp → Prop
  | .lt => if leftIsInteger then Below b num else Above b num
  | .le => (if leftIsInteger then Below b num else Above b num) ∨ Same b num
  | .gt => if leftIsInteger then Above b num else Below b num
  | .ge => (if leftIsInteger then Above b num else Below b num) ∨ Same b num

variable {b : Int} {num : Double}

theorem isFinite_of_not (notNan : num.isNan = false) (notInf : num.isInf = false) :
    num.isFinite = true := by
  simp only [Double.isNan, Double.isInf, decide_eq_false_iff_not] at notNan notInf
  rw [Double.isFinite, decide_eq_true_iff]
  intro top
  by_cases zeroFraction : num.fraction = 0
  · exact notInf ⟨top, zeroFraction⟩
  · exact notNan ⟨top, zeroFraction⟩

/-- A number that is ordered is below, the same or above. -/
theorem below_or_same_or_above (notNan : num.isNan = false) :
    (¬Same b num ∧ ¬Above b num ↔ Below b num) ∧ (¬Same b num ∧ ¬Below b num ↔ Above b num) := by
  unfold Below Same Above
  by_cases isInf : num.isInf = true
  · have notFinite : num.isFinite = false := by
      simp only [Double.isInf, decide_eq_true_eq] at isInf
      simp [Double.isFinite, isInf.1]
    rw [if_pos isInf, if_pos isInf, notFinite]
    simp
  · rw [if_neg isInf, if_neg isInf, isFinite_of_not notNan (Bool.eq_false_iff.mpr isInf), notNan]
    simp only [true_and, not_lt]
    constructor
    · rw [and_comm, lt_iff_le_and_ne]
    · rw [and_comm, lt_iff_le_and_ne, ne_comm]

end Mathematics

section Relational

variable {num : Double}

/-- A finite number compares as the integer below it does, and is above that integer if
it has a fractional part. -/
theorem svBigintCompareNumber_spec (bigint : Payload) (notNan : num.isNan = false) :
    ∃ cmp, svBigintCompareNumber bigint num = some (true, cmp) ∧
      (cmp < 0 ↔ Below bigint.toInt num) ∧ (0 < cmp ↔ Above bigint.toInt num) := by
  unfold svBigintCompareNumber Below Above
  rw [if_neg (by simp [notNan])]
  by_cases isInf : num.isInf = true
  · rw [if_pos isInf, if_pos isInf, if_pos isInf]
    refine ⟨_, rfl, ?_⟩
    cases num.negative <;> decide
  · have finite := isFinite_of_not notNan (Bool.eq_false_iff.mpr isInf)
    obtain ⟨finiteFloor, wholeFloor, floorInt⟩ := Double.floor_spec finite
    obtain ⟨other, otherEq, otherInt⟩ := bigintFromIntegralDouble_spec finiteFloor wholeFloor
    obtain ⟨less, greater⟩ := bigintCompare_sign bigint other
    have atMost := @Double.intCast_le_value_iff num bigint.toInt
    have equal := @Double.intCast_eq_value_iff num bigint.toInt
    rw [if_neg isInf, if_neg isInf, if_neg isInf, otherEq, Double.eq_floor finite, notNan,
      lt_iff_le_and_ne, Ne, equal, ← not_le, atMost]
    refine ⟨_, rfl, ?_⟩
    cases num.isWhole with
    | true =>
      simp only [Bool.not_true, Bool.false_and, Bool.false_eq_true, if_false, and_true, true_and]
      omega
    | false =>
      simp only [Bool.not_false, Bool.true_and, beq_iff_eq, Bool.false_eq_true, and_false,
        not_false_eq_true, and_true, true_and]
      split_ifs <;> omega

/-- The relational operators compare the mathematical values. -/
theorem svPushBigintRelational_spec (bigint : Payload) (num : Double) (leftIsBigint : Bool)
    (op : RelOp) :
    ∃ result, svPushBigintRelational bigint num leftIsBigint op = some result ∧
      (result = true ↔ Related bigint.toInt num leftIsBigint op) := by
  by_cases isNan : num.isNan = true
  · refine ⟨false, ?_, ?_⟩
    · rw [svPushBigintRelational, svBigintCompareNumber, if_pos isNan]
      rfl
    · have notInf : num.isInf = false := by
        simp only [Double.isNan, decide_eq_true_eq] at isNan
        simp [Double.isInf, isNan.2]
      have notFinite : num.isFinite = false := by
        simp only [Double.isNan, decide_eq_true_eq] at isNan
        simp [Double.isFinite, isNan.1]
      have notBelow : ¬Below bigint.toInt num := by simp [Below, notInf, isNan]
      have notAbove : ¬Above bigint.toInt num := by simp [Above, notInf, isNan]
      have notSame : ¬Same bigint.toInt num := by simp [Same, notFinite]
      cases op <;> cases leftIsBigint <;> simp [Related, notBelow, notAbove, notSame]
  · rw [Bool.not_eq_true] at isNan
    obtain ⟨cmp, cmpEq, less, greater⟩ := svBigintCompareNumber_spec bigint isNan
    obtain ⟨belowIff, aboveIff⟩ := @below_or_same_or_above bigint.toInt num isNan
    refine ⟨svRelFromBigintCmp cmp leftIsBigint op, ?_, ?_⟩
    · rw [svPushBigintRelational, cmpEq]
      rfl
    · cases op <;> cases leftIsBigint <;> simp only [svRelFromBigintCmp, Related] <;> grind

end Relational

section Equality

variable {num : Double}

/-- The number that the first 63 digits make. -/
def firstDigits (value : Nat) : Nat :=
  value / 10 ^ ((print 10 value).length - bufferRoom)

theorem firstDigits_of_small (small : value < 10 ^ bufferRoom) :
    firstDigits value = value := by
  have short := (length_print_le_iff (by decide) (by decide) value).mpr small
  rw [firstDigits, Nat.sub_eq_zero_of_le short, Nat.pow_zero, Nat.div_one]

theorem firstDigits_lt (large : 10 ^ bufferRoom ≤ value) :
    firstDigits value < value := by
  have long : bufferRoom < (print 10 value).length := by
    by_contra short
    exact absurd ((length_print_le_iff (by decide) (by decide) value).mp
      (Nat.not_lt.mp short)) (Nat.not_lt.mpr large)
  have positive : 0 < value := Nat.lt_of_lt_of_le (Nat.pow_pos (by decide)) large
  exact Nat.div_lt_self positive (Nat.one_lt_pow (by omega) (by decide))

theorem scaled_eq_zero_iff : num.scaled = 0 ↔ num = .zero num.negative := by
  constructor
  · intro isZero
    have significandZero : num.significand = 0 := by
      rw [Double.scaled, Nat.mul_eq_zero] at isZero
      exact isZero.resolve_right (Nat.two_pow_pos _).ne'
    unfold Double.significand at significandZero
    split_ifs at significandZero with subnormal
    · obtain ⟨negative, exponent, fraction, _, _⟩ := num
      subst subnormal significandZero
      rfl
    · omega
  · intro isZero
    rw [isZero]
    rfl

/-- What `==` compares a whole number other than negative zero with. -/
theorem svAbstractEq_of_whole
    (bigint : Payload) (finite : num.isFinite = true) (isWhole : num.isWhole = true)
    (notNegativeZero : num ≠ .zero true) :
    ∃ result, svAbstractEq bigint num = some result ∧
      (result = true ↔ bigint.toInt =
        if num.negative then -(firstDigits num.whole : Int) else firstDigits num.whole) := by
  have negEq : (num.negative && !num.eq (.zero false)) = num.negative := by
    cases isNegative : num.negative with
    | false => rfl
    | true =>
      have nonzero : num.scaled ≠ 0 := by
        intro isZero
        rw [scaled_eq_zero_iff, isNegative] at isZero
        exact notNegativeZero isZero
      have zeroScaled : (Double.zero false).scaled = 0 := rfl
      rw [Double.eq_of_finite finite rfl, Double.sameValue, zeroScaled]
      simp [nonzero]
  have text : (printFixed (if num.negative then num.neg else num)).take bufferRoom =
      print 10 (firstDigits num.whole) := by
    have unsigned : printFixed (if num.negative then num.neg else num) =
        print 10 num.whole := by
      cases isNegative : num.negative with
      | false => simp [printFixed, isNegative]
      | true =>
        simp only [Double.neg, isNegative]
        rfl
    rw [unsigned, take_print (by decide) (by decide), firstDigits]
  obtain ⟨other, otherEq, otherInt⟩ := bigintFromStringDigits_print (firstDigits num.whole)
    num.negative true
  obtain ⟨less, greater⟩ := bigintCompare_sign bigint other
  refine ⟨bigintCompare bigint other == 0, ?_, ?_⟩
  · rw [svAbstractEq, finite, Double.eq_trunc finite, isWhole]
    simp only
    rw [negEq, text, jsMkbigint, otherEq]
    rfl
  · rw [beq_iff_eq]
    omega

theorem svAbstractEq_negativeZero (bigint : Payload) : svAbstractEq bigint (.zero true) = none := by
  have finite : (Double.zero true).isFinite = true := rfl
  have isWhole : (Double.zero true).isWhole = true := by decide +kernel
  have notBelow : ((Double.zero true).negative && !(Double.zero true).eq (.zero false)) =
      false := by
    decide +kernel
  have text : (printFixed (.zero true)).take bufferRoom = [45, 48] := by decide +kernel
  have refused : jsMkbigint [45, 48] false = none := by decide +kernel
  rw [svAbstractEq, Double.eq_trunc finite, finite, isWhole]
  simp [notBelow, text, refused]

theorem svAbstractEq_of_not_whole
    (bigint : Payload) (notWhole : ¬(num.isFinite = true ∧ num.isWhole = true)) :
    svAbstractEq bigint num = some false := by
  rw [svAbstractEq, if_neg]
  rw [Bool.and_eq_true]
  rintro ⟨finite, sameTrunc⟩
  rw [Double.eq_trunc finite] at sameTrunc
  exact notWhole ⟨finite, sameTrunc⟩

theorem isWhole_of_le_whole (large : 10 ^ bufferRoom ≤ num.whole) : num.isWhole = true := by
  apply Double.isWhole_of_large
  by_contra small
  have less := Double.whole_lt (Nat.not_le.mp small)
  have power : 2 ^ 52 < 10 ^ bufferRoom := by decide +kernel
  omega

/-- On which operands `==` is exact: the number is not negative zero, and if it has more
than 63 digits the integer is neither the number nor what its first 63 digits make. -/
def EqExact (b : Int) (num : Double) : Prop :=
  num ≠ .zero true ∧ (num.isFinite = true → 10 ^ bufferRoom ≤ num.whole →
      b ≠ (if num.negative then -(num.whole : Int) else num.whole) ∧
      b ≠ if num.negative then -(firstDigits num.whole : Int) else firstDigits num.whole)

theorem svAbstractEq_exact_iff (bigint : Payload) (num : Double) :
    (∃ result, svAbstractEq bigint num = some result ∧ (result = true ↔ Same bigint.toInt num)) ↔
      EqExact bigint.toInt num := by
  unfold EqExact
  by_cases negativeZero : num = .zero true
  · rw [negativeZero, svAbstractEq_negativeZero]
    refine iff_of_false ?_ fun exact => exact.1 rfl
    rintro ⟨result, runs, -⟩
    cases runs
  by_cases whole : num.isFinite = true ∧ num.isWhole = true
  · obtain ⟨finite, isWhole⟩ := whole
    obtain ⟨result, runs, resultIff⟩ := svAbstractEq_of_whole bigint finite isWhole negativeZero
    have same : Same bigint.toInt num ↔
        bigint.toInt = if num.negative then -(num.whole : Int) else num.whole := by
      rw [Same, Double.intCast_eq_value_iff, Double.floorInt]
      simp [finite, isWhole]
    simp only [runs, Option.some.injEq, exists_eq_left', resultIff, same, finite, ne_eq,
      negativeZero, not_false_eq_true, true_and, true_implies]
    by_cases large : 10 ^ bufferRoom ≤ num.whole
    · have shorter := firstDigits_lt large
      split_ifs <;> omega
    · rw [firstDigits_of_small (Nat.not_le.mp large)]
      simp [large]
  · rw [svAbstractEq_of_not_whole bigint whole]
    refine iff_of_true ⟨false, rfl, iff_of_false Bool.false_ne_true ?_⟩ ⟨negativeZero, ?_⟩
    · rintro ⟨finite, same⟩
      rw [Double.intCast_eq_value_iff] at same
      exact whole ⟨finite, same.2⟩
    · intro finite large
      exact absurd ⟨finite, isWhole_of_le_whole large⟩ whole

end Equality

section Comparisons

/-- The operators decide as the mathematical values compare, and for a number that is
ordered exactly one of `<`, `==` and `>` holds. -/
structure ComparesExactly (bigint : Payload) (num : Double) : Prop where
  equality : ∃ result, svAbstractEq bigint num = some result ∧
    (result = true ↔ Same bigint.toInt num)
  relational : ∀ leftIsBigint op, ∃ result,
    svPushBigintRelational bigint num leftIsBigint op = some result ∧
      (result = true ↔ Related bigint.toInt num leftIsBigint op)
  exactlyOne : num.isNan = false →
    [svPushBigintRelational bigint num true .lt, svAbstractEq bigint num,
      svPushBigintRelational bigint num true .gt].count (some true) = 1

/-- Which operands are compared exactly. -/
theorem comparesExactly_iff (bigint : Payload) (num : Double) :
    ComparesExactly bigint num ↔ EqExact bigint.toInt num := by
  rw [← svAbstractEq_exact_iff]
  refine ⟨ComparesExactly.equality, fun equality =>
    ⟨equality, svPushBigintRelational_spec bigint num, fun ordered => ?_⟩⟩
  obtain ⟨same, sameEq, sameIff⟩ := equality
  obtain ⟨less, lessEq, lessIff⟩ := svPushBigintRelational_spec bigint num true .lt
  obtain ⟨greater, greaterEq, greaterIff⟩ := svPushBigintRelational_spec bigint num true .gt
  obtain ⟨belowIff, aboveIff⟩ := @below_or_same_or_above bigint.toInt num ordered
  change _ ↔ Below bigint.toInt num at lessIff
  change _ ↔ Above bigint.toInt num at greaterIff
  rw [greaterEq]
  cases less <;> cases same <;> cases greater <;> simp_all

/-- The number `2 ^ 210` with 64 digits. -/
def wideNumber : Double :=
  ⟨false, 1233, 0, by decide, Nat.two_pow_pos 52⟩

/-- The BigInt `2n ** 210n`. -/
def wideBigint : Payload :=
  ⟨false, [0, 0, 0, 0, 0, 0, 262144], by decide, by decide, by decide⟩

/-- The same value is not `==`. -/
theorem comparesExactly_wide : ¬ComparesExactly wideBigint wideNumber := by
  intro exact
  obtain ⟨result, runs, resultIff⟩ := exact.equality
  have differs : svAbstractEq wideBigint wideNumber = some false := by decide +kernel
  have same : Same wideBigint.toInt wideNumber := by
    rw [Same]
    decide +kernel
  rw [differs] at runs
  cases runs
  exact absurd (resultIff.mpr same) Bool.false_ne_true

end Comparisons

end AntRuntime.BigInt
