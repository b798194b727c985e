import Mathlib.Algebra.Order.Field.Rat
import Mathlib.Algebra.Order.Floor.Ring
import Mathlib.Data.Rat.Floor
import Mathlib.Data.Nat.Log

/-!
# Double precision numbers

A double is a sign, an exponent and a fraction. Its value is counted in units of
`2 ^ -1075`, so that every finite double is a whole number of them. Rounding to an
integer is exact: the result is a double whose value is that integer.
-/

namespace AntRuntime.Floats

structure Double where
  negative : Bool
  exponent : Nat
  fraction : Nat
  exponent_lt : exponent < 2048
  fraction_lt : fraction < 2 ^ 52
deriving DecidableEq

namespace Double

section Values

variable (d : Double)

def isNan : Bool :=
  d.exponent = 2047 ∧ d.fraction ≠ 0

def isInf : Bool :=
  d.exponent = 2047 ∧ d.fraction = 0

def isFinite : Bool :=
  d.exponent ≠ 2047

/-- The exponent of one, in units of `2 ^ -1075`. -/
def unitExponent : Nat :=
  1075

/-- How many units make one. -/
def unit : Nat :=
  2 ^ unitExponent

/-- The fraction with the leading bit that normal numbers have. -/
def significand : Nat :=
  if d.exponent = 0 then d.fraction else 2 ^ 52 + d.fraction

/-- The absolute value in units of `2 ^ -1075`. -/
def scaled : Nat :=
  d.significand * 2 ^ max d.exponent 1

/-- The value of a finite double. -/
def value : ℚ :=
  (if d.negative then -1 else 1) * ((d.scaled : ℚ) / unit)

/-- The absolute value without its fractional part. -/
def whole : Nat :=
  d.scaled / unit

/-- Whether a finite double has no fractional part. -/
def isWhole : Bool :=
  d.scaled % unit = 0

def zero (negative : Bool) : Double :=
  ⟨negative, 0, 0, by decide, by decide⟩

/-- The other sign. -/
def neg : Double :=
  { d with negative := !d.negative }

variable {d : Double}

theorem unit_pos : 0 < unit :=
  Nat.two_pow_pos unitExponent

theorem two_pow_mul_two_pow (total : a + b = unitExponent) : 2 ^ a * 2 ^ b = unit := by
  rw [← Nat.pow_add, total, unit]

/-- The whole numbers below `2 ^ 53` are doubles. -/
theorem ofNat_fraction_lt (small : n < 2 ^ 53) : n * 2 ^ (52 - n.log2) - 2 ^ 52 < 2 ^ 52 := by
  have above : n < 2 ^ (n.log2 + 1) := Nat.lt_log2_self
  by_cases isZero : n = 0
  · subst isZero
    decide
  · have atMost : n.log2 ≤ 52 := by
      have := (Nat.log2_lt isZero).mpr small
      omega
    have scaledAbove : n * 2 ^ (52 - n.log2) < 2 ^ (n.log2 + 1) * 2 ^ (52 - n.log2) :=
      Nat.mul_lt_mul_of_pos_right above (Nat.two_pow_pos _)
    rw [← Nat.pow_add, show n.log2 + 1 + (52 - n.log2) = 53 by omega] at scaledAbove
    omega

/-- A whole number below `2 ^ 53` as a double. -/
def ofNat (negative : Bool) (n : Nat) : Double :=
  if small : n < 2 ^ 53 then
    if n = 0 then zero negative
    else
      ⟨negative, min (1023 + n.log2) 2046, n * 2 ^ (52 - n.log2) - 2 ^ 52, by omega,
        ofNat_fraction_lt small⟩
  else zero negative

/-- A small number as a double has its own value. -/
theorem scaled_ofNat (negative : Bool) (small : n < 2 ^ 53) :
    (ofNat negative n).scaled = n * unit := by
  rw [ofNat, dif_pos small]
  by_cases isZero : n = 0
  · rw [if_pos isZero, isZero, Nat.zero_mul]
    rfl
  · have atMost : n.log2 ≤ 52 := by
      have := (Nat.log2_lt isZero).mpr small
      omega
    have below : 2 ^ n.log2 ≤ n := Nat.log2_self_le isZero
    have scaledBelow : 2 ^ 52 ≤ n * 2 ^ (52 - n.log2) := by
      have := Nat.mul_le_mul_right (2 ^ (52 - n.log2)) below
      rwa [← Nat.pow_add, show n.log2 + (52 - n.log2) = 52 by omega] at this
    rw [if_neg isZero, scaled, significand]
    simp only
    rw [if_neg (by omega),
      show 2 ^ 52 + (n * 2 ^ (52 - n.log2) - 2 ^ 52) = n * 2 ^ (52 - n.log2) by omega,
      Nat.mul_assoc, two_pow_mul_two_pow (by rw [unitExponent]; omega)]

theorem negative_ofNat (negative : Bool) (n : Nat) : (ofNat negative n).negative = negative := by
  unfold ofNat
  split_ifs <;> rfl

theorem isFinite_ofNat (negative : Bool) (n : Nat) : (ofNat negative n).isFinite = true := by
  unfold ofNat
  split_ifs
  · rfl
  · simp only [isFinite, decide_eq_true_eq]
    omega
  · rfl

end Values

section Rounding

variable {d : Double}

/-- `trunc`. -/
def trunc (d : Double) : Double :=
  if unitExponent ≤ d.exponent then d else ofNat d.negative d.whole

/-- `floor`. -/
def floor (d : Double) : Double :=
  if unitExponent ≤ d.exponent then d
  else if d.negative ∧ d.isWhole = false then ofNat true (d.whole + 1)
  else ofNat d.negative d.whole

/-- Equality of finite doubles. -/
def sameValue (a b : Double) : Bool :=
  a.scaled = b.scaled ∧ (a.negative = b.negative ∨ a.scaled = 0)

/-- The operator `==` on doubles. -/
def eq (a b : Double) : Bool :=
  if a.isNan || b.isNan then false
  else if a.isInf || b.isInf then a.isInf && b.isInf && a.negative == b.negative
  else sameValue a b

/-- A double with a large exponent has no fractional part. -/
theorem isWhole_of_large (large : unitExponent ≤ d.exponent) : d.isWhole = true := by
  have power : 2 ^ max d.exponent 1 = unit * 2 ^ (d.exponent - unitExponent) := by
    have atLeast : 1 ≤ unitExponent := by decide
    rw [unit, ← Nat.pow_add, Nat.add_sub_cancel' large, Nat.max_eq_left
      (Nat.le_trans atLeast large)]
  rw [isWhole, decide_eq_true_iff, scaled, power, ← Nat.mul_assoc, Nat.mul_right_comm,
    Nat.mul_mod_left]

/-- A double with a small exponent has fewer than 53 binary digits before the point. -/
theorem whole_lt (small : d.exponent < unitExponent) : d.whole < 2 ^ 52 := by
  have bound : d.significand < 2 ^ 53 := by
    have := d.fraction_lt
    unfold significand
    split_ifs <;> omega
  have power : 2 ^ max d.exponent 1 ≤ 2 ^ (unitExponent - 1) := by
    apply Nat.pow_le_pow_right (by decide)
    rw [unitExponent] at small ⊢
    omega
  have unitEq : 2 ^ 52 * unit = 2 ^ 53 * 2 ^ (unitExponent - 1) := by
    rw [unit, ← Nat.pow_add, ← Nat.pow_add,
      show 52 + unitExponent = 53 + (unitExponent - 1) from rfl]
  rw [whole, Nat.div_lt_iff_lt_mul unit_pos, unitEq]
  exact Nat.lt_of_le_of_lt (Nat.mul_le_mul_left _ power)
    (Nat.mul_lt_mul_of_pos_right bound (Nat.two_pow_pos _))

/-- A double is its whole part and the rest. -/
theorem scaled_eq (d : Double) : d.scaled = d.whole * unit + d.scaled % unit :=
  (Nat.div_add_mod' _ _).symm

theorem isNan_eq_false (finite : d.isFinite = true) : d.isNan = false := by
  simp only [isFinite, decide_eq_true_eq] at finite
  simp [isNan, finite]

theorem isInf_eq_false (finite : d.isFinite = true) : d.isInf = false := by
  simp only [isFinite, decide_eq_true_eq] at finite
  simp [isInf, finite]

/-- On finite doubles equality is that of the values. -/
theorem eq_of_finite {a b : Double} (finiteA : a.isFinite = true) (finiteB : b.isFinite = true) :
    a.eq b = sameValue a b := by
  rw [eq, isNan_eq_false finiteA, isNan_eq_false finiteB, isInf_eq_false finiteA,
    isInf_eq_false finiteB]
  rfl

/-- A finite double is whole exactly if it equals its truncation. -/
theorem eq_trunc (finite : d.isFinite = true) : d.eq d.trunc = d.isWhole := by
  by_cases large : unitExponent ≤ d.exponent
  · rw [trunc, if_pos large, eq_of_finite finite finite, isWhole_of_large large]
    simp [sameValue]
  · have scaledTrunc : d.trunc.scaled = d.whole * unit := by
      rw [trunc, if_neg large]
      exact scaled_ofNat _ (Nat.lt_trans (whole_lt (Nat.not_le.mp large)) (by decide))
    have sameSign : d.trunc.negative = d.negative := by rw [trunc, if_neg large, negative_ofNat]
    have finiteTrunc : d.trunc.isFinite = true := by rw [trunc, if_neg large, isFinite_ofNat]
    have split := scaled_eq d
    rw [eq_of_finite finite finiteTrunc, sameValue, sameSign, isWhole, decide_eq_decide]
    simp only [true_or, and_true]
    omega

/-- Rounding down does not change a whole double. -/
theorem eq_floor (finite : d.isFinite = true) : d.floor.eq d = d.isWhole := by
  by_cases large : unitExponent ≤ d.exponent
  · rw [floor, if_pos large, eq_of_finite finite finite, isWhole_of_large large]
    simp [sameValue]
  · have small := whole_lt (Nat.not_le.mp large)
    have split := scaled_eq d
    have positive := unit_pos
    rw [floor]
    split_ifs with below
    · rw [eq_of_finite (isFinite_ofNat _ _) finite, sameValue, scaled_ofNat _ (by omega), below.2]
      have less := Nat.mod_lt d.scaled positive
      have next : (d.whole + 1) * unit = d.whole * unit + unit := Nat.succ_mul _ _
      simp only [decide_eq_false_iff_not]
      omega
    · rw [eq_of_finite (isFinite_ofNat _ _) finite, sameValue, scaled_ofNat _ (by omega),
        negative_ofNat, isWhole, decide_eq_decide]
      simp only [true_or, and_true]
      omega

/-- The integer that a double is rounded down to. -/
def floorInt (d : Double) : Int :=
  if d.negative then
    if d.isWhole then -(d.whole : Int) else -(d.whole : Int) - 1
  else d.whole

/-- The result of rounding down is whole, with the value of that integer. -/
theorem floor_spec (finite : d.isFinite = true) :
    d.floor.isFinite = true ∧ d.floor.isWhole = true ∧ d.floor.floorInt = d.floorInt := by
  by_cases large : unitExponent ≤ d.exponent
  · rw [floor, if_pos large]
    exact ⟨finite, isWhole_of_large large, rfl⟩
  · have small := whole_lt (Nat.not_le.mp large)
    have ofNatSpec (negative : Bool) (n : Nat) (bound : n < 2 ^ 53) :
        (ofNat negative n).isWhole = true ∧ (ofNat negative n).whole = n := by
      rw [isWhole, whole, scaled_ofNat negative bound, Nat.mul_mod_left, Nat.mul_div_cancel _
        unit_pos]
      exact ⟨rfl, rfl⟩
    rw [floor]
    split_ifs with below
    · obtain ⟨isWhole, wholeEq⟩ := ofNatSpec true (d.whole + 1) (by omega)
      refine ⟨isFinite_ofNat _ _, isWhole, ?_⟩
      rw [floorInt, floorInt, negative_ofNat, isWhole, below.1, below.2]
      simp only [if_true, Bool.false_eq_true, if_false]
      omega
    · obtain ⟨isWhole, wholeEq⟩ := ofNatSpec d.negative d.whole (by omega)
      refine ⟨isFinite_ofNat _ _, isWhole, ?_⟩
      rw [floorInt, floorInt, negative_ofNat, isWhole, wholeEq]
      by_cases isNegative : d.negative = true
      · have alsoWhole : d.isWhole = true := by
          rw [not_and, Bool.not_eq_false] at below
          exact below isNegative
        rw [alsoWhole]
      · rw [if_neg isNegative, if_neg isNegative]

/-- The value in units. -/
def signedScaled (d : Double) : Int :=
  if d.negative then -(d.scaled : Int) else d.scaled

/-- The value of a double, from its multiple of the smallest unit. -/
theorem value_eq (d : Double) : d.value = (d.signedScaled : ℚ) / (unit : ℚ) := by
  rw [value, signedScaled]
  split_ifs
  · rw [Int.cast_neg, Int.cast_natCast, neg_div, neg_one_mul]
  · rw [Int.cast_natCast, one_mul]

/-- A double lies between its floor and the next integer, at the floor only if it is whole. -/
theorem signedScaled_eq (d : Double) :
    ∃ low : Int, 0 ≤ low ∧ low < unit ∧ d.signedScaled = d.floorInt * unit + low ∧
      (low = 0 ↔ d.isWhole = true) := by
  have split := scaled_eq d
  have less := Nat.mod_lt d.scaled unit_pos
  have isWholeIff : d.isWhole = true ↔ d.scaled % unit = 0 := by rw [isWhole, decide_eq_true_iff]
  generalize d.scaled % unit = low at split less isWholeIff
  have cast : (d.scaled : Int) = d.whole * unit + low := by
    rw [split]
    rfl
  rw [signedScaled, floorInt]
  split_ifs with isNegative isWhole
  · obtain rfl := isWholeIff.mp isWhole
    refine ⟨0, Int.le_refl 0, by exact_mod_cast unit_pos, ?_, by simp [isWhole]⟩
    rw [cast, Int.neg_mul, Nat.cast_zero, Int.add_zero, Int.add_zero]
  · have positive : low ≠ 0 := fun isZero => isWhole (isWholeIff.mpr isZero)
    refine ⟨unit - low, by omega, by omega, ?_, iff_of_false (by omega) isWhole⟩
    rw [Int.sub_mul, Int.neg_mul]
    omega
  · exact ⟨low, by omega, by omega, cast, by rw [isWholeIff]; omega⟩

/-- An integer is at most a double exactly if it is at most its floor. -/
theorem intCast_mul_unit_le_iff (b : Int) : b * unit ≤ d.signedScaled ↔ b ≤ d.floorInt := by
  obtain ⟨low, nonneg, less, split, -⟩ := signedScaled_eq d
  have positive : (0 : Int) < unit := by exact_mod_cast unit_pos
  constructor
  · intro atMost
    by_contra above
    have next : (d.floorInt + 1) * unit ≤ b * unit :=
      Int.mul_le_mul_of_nonneg_right (by omega) (Int.le_of_lt positive)
    rw [Int.add_mul] at next
    omega
  · intro atMost
    have scaledLe := Int.mul_le_mul_of_nonneg_right atMost (Int.le_of_lt positive)
    omega

/-- An integer is at most a double exactly if it is at most the integer below it. -/
theorem intCast_le_value_iff (b : Int) : (b : ℚ) ≤ d.value ↔ b ≤ d.floorInt := by
  have positive : (0 : ℚ) < unit := by exact_mod_cast unit_pos
  rw [value_eq, le_div_iff₀ positive, ← intCast_mul_unit_le_iff]
  exact_mod_cast Iff.rfl

/-- An integer equals a double exactly if the double is whole and it is that integer. -/
theorem intCast_eq_value_iff (b : Int) : (b : ℚ) = d.value ↔ b = d.floorInt ∧ d.isWhole = true := by
  have positive : (0 : ℚ) < unit := by exact_mod_cast unit_pos
  obtain ⟨low, nonneg, less, split, isWholeIff⟩ := signedScaled_eq d
  have inUnits : (b : ℚ) = d.value ↔ b * unit = d.signedScaled := by
    rw [value_eq, eq_div_iff positive.ne']
    exact_mod_cast Iff.rfl
  rw [inUnits, ← isWholeIff, split]
  constructor
  · intro same
    have atMost : b ≤ d.floorInt := by
      rw [← intCast_mul_unit_le_iff, split]
      exact Int.le_of_eq same
    have unitPositive : (0 : Int) < unit := by exact_mod_cast unit_pos
    have atLeast : d.floorInt ≤ b := by
      by_contra below
      have next : (b + 1) * unit ≤ d.floorInt * unit :=
        Int.mul_le_mul_of_nonneg_right (by omega) (Int.le_of_lt unitPositive)
      rw [Int.add_mul] at next
      omega
    obtain rfl := Int.le_antisymm atMost atLeast
    exact ⟨rfl, by omega⟩
  · rintro ⟨rfl, rfl⟩
    omega

end Rounding

end Double
end AntRuntime.Floats
