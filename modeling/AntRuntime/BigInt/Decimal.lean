import AntRuntime.BigInt.Division
import Mathlib.Data.Nat.Digits.Lemmas

/-!
# Decimal text of a BigInt

`bigint_abs_to_decimal_string` splits a magnitude into groups of nine digits and
prints them; `strbigint` copies the text with its sign into a buffer.
-/

namespace AntRuntime.BigInt

open List

section Text

/-- `BIGINT_DEC_GROUP_BASE`. -/
def decGroupBase : UInt32 := 1000000000

/-- The loop of `bigint_abs_to_decimal_string` and of `bigint_abs_to_radix_string`, least
significant group first. -/
def digitGroups (base : UInt32) : Nat → List UInt32 → List UInt32
  | 0, _ => []
  | fuel + 1, tmp =>
    if limbsIsZero tmp then []
    else
      (divSmallLoop base tmp).2.toUInt32 ::
        digitGroups base fuel (normalizeLimbs (divSmallLoop base tmp).1)

/-- `u32_dec_len`. -/
def u32DecLen (v : UInt32) : Nat :=
  if 1000000000 ≤ v then 10
  else if 100000000 ≤ v then 9
  else if 10000000 ≤ v then 8
  else if 1000000 ≤ v then 7
  else if 100000 ≤ v then 6
  else if 10000 ≤ v then 5
  else if 1000 ≤ v then 4
  else if 100 ≤ v then 3
  else if 10 ≤ v then 2
  else 1

/-- The characters of decimal digits, least significant digit first. -/
def digitChars (digits : List Nat) : List Nat :=
  digits.reverse.map (0x30 + ·)

/-- `snprintf` with `"%u"`. -/
def printU (v : Nat) : List Nat :=
  if v = 0 then [0x30] else digitChars (Nat.digits 10 v)

/-- `snprintf` with `"%09u"`. -/
def printU9 (v : Nat) : List Nat :=
  digitChars (Nat.digitsAppend 10 9 v)

/-- The printed groups, the most significant one without leading zeros. -/
def printGroups (groups : List UInt32) : List Nat :=
  match groups.reverse with
  | [] => []
  | top :: lower => printU top.toNat ++ lower.flatMap fun group => printU9 group.toNat

/-- `bigint_abs_to_decimal_string`: the text and `out_len`. -/
def absToDecimalString (limbs : List UInt32) : List Nat × Nat :=
  if limbsIsZero limbs then ([0x30], 1)
  else
    let groups := digitGroups decGroupBase (limbs.length * 2 + 1) limbs
    (printGroups groups, u32DecLen (groups.getLastD 0) + (groups.length - 1) * 9)

/-- `bigint_digits_len`. -/
def digitsLen (value : Payload) : Nat :=
  (absToDecimalString value.limbs).2

/-- Bytes written at consecutive places of a buffer. -/
def writeAt (start : Nat) (bytes : List Nat) : List (Nat × Nat) :=
  bytes.mapIdx fun i byte => (start + i, byte)

/-- `strbigint`: the bytes written into a buffer of `len` bytes, in order. -/
def strbigint (value : Payload) (len : Nat) : List (Nat × Nat) :=
  let (digits, dlen) := absToDecimalString value.limbs
  if len = 0 then []
  else
    let n := if value.sign then 1 else 0
    let avail := if n < len then len - n - 1 else 0
    let copyLen := if dlen < avail then dlen else avail
    let term := if len ≤ n + copyLen then len - 1 else n + copyLen
    (if value.sign ∧ 0 < len - 1 then [(0, 0x2D)] else []) ++
      writeAt n (digits.take copyLen) ++ [(term, 0)]

end Text

section Groups

variable {limbs : List UInt32}

theorem limbsIsZero_iff_limbsToNat
    (nonempty : limbs ≠ []) (normalized : normalizeLimbs limbs = limbs) :
    limbsIsZero limbs = true ↔ limbsToNat limbs = 0 := by
  have payload := Payload.limbsIsZero_iff_toInt ⟨false, limbs, nonempty, normalized, fun _ => rfl⟩
  rw [payload]
  simp [Payload.toInt, Payload.magnitude]

/-- The loop yields the digits to its base. -/
theorem digitGroups_eq {base : UInt32} (several : 1 < base.toNat)
    (fuel : Nat) (nonempty : limbs ≠ []) (normalized : normalizeLimbs limbs = limbs)
    (enough : limbsToNat limbs < base.toNat ^ fuel) :
    (digitGroups base fuel limbs).map UInt32.toNat = Nat.digits base.toNat (limbsToNat limbs) := by
  induction fuel generalizing limbs with
  | zero =>
    have zero : limbsToNat limbs = 0 := by simpa using enough
    rw [zero, Nat.digits_zero]
    rfl
  | succ fuel ih =>
    rw [digitGroups]
    split_ifs with isZero
    · rw [limbsIsZero_iff_limbsToNat nonempty normalized] at isZero
      rw [isZero]
      simp
    · have positive : 0 < limbsToNat limbs := by
        rw [Nat.pos_iff_ne_zero]
        exact mt (limbsIsZero_iff_limbsToNat nonempty normalized).mpr isZero
      have base_pos : 0 < base.toNat := Nat.zero_lt_of_lt several
      obtain ⟨value, small⟩ := divSmallLoop_value base_pos limbs
      rw [Nat.mul_comm, Nat.add_comm] at value
      obtain ⟨rest, here⟩ := (Nat.div_mod_unique base_pos).mpr ⟨value.symm, small⟩
      have low : (divSmallLoop base limbs).2.toUInt32.toNat = limbsToNat limbs % base.toNat := by
        rw [here, UInt64.toNat_toUInt32, Nat.mod_eq_of_lt (small.trans base.toNat_lt)]
      have quotientNonempty : (divSmallLoop base limbs).1 ≠ [] := by
        cases limbs with
        | nil => exact absurd rfl nonempty
        | cons limb limbs => simp [divSmallLoop]
      rw [Nat.digits_def' several positive, map_cons, low, rest,
        ← limbsToNat_normalizeLimbs (divSmallLoop base limbs).1]
      congr 1
      apply ih (normalizeLimbs_ne_nil quotientNonempty) (normalizeLimbs_idem _)
      rw [limbsToNat_normalizeLimbs, ← rest]
      exact Nat.div_lt_of_lt_mul (by rwa [Nat.mul_comm])

end Groups

section Printing

theorem digitChars_append (low high : List Nat) :
    digitChars (low ++ high) = digitChars high ++ digitChars low := by
  simp [digitChars]

theorem printGroups_cons {groups : List UInt32} (group : UInt32) (nonempty : groups ≠ []) :
    printGroups (group :: groups) = printGroups groups ++ printU9 group.toNat := by
  obtain ⟨top, lower, reversed⟩ := exists_cons_of_ne_nil (mt reverse_eq_nil_iff.mp nonempty)
  simp [printGroups, reversed]

/-- A group below the top stands for nine digits. -/
theorem digits_group (small : group < 10 ^ 9) (positive : 0 < more) :
    Nat.digits 10 (group + 10 ^ 9 * more) = Nat.digitsAppend 10 9 group ++ Nat.digits 10 more := by
  have fits : (Nat.digits 10 group).length ≤ 9 :=
    (Nat.digits_length_le_iff (by norm_num) group).mpr small
  rw [Nat.digitsAppend, Nat.digits_append_zeroes_append_digits (by norm_num) positive,
    Nat.add_sub_cancel' fits]

theorem u32DecLen_eq (positive : 0 < v.toNat) :
    u32DecLen v = (Nat.digits 10 v.toNat).length := by
  have lengthEq (n : Nat) (low : 10 ^ n ≤ v.toNat) (high : v.toNat < 10 ^ (n + 1)) :
      n + 1 = (Nat.digits 10 v.toNat).length := by
    apply Nat.le_antisymm
    · exact (Nat.lt_digits_length_iff (by norm_num) _).mpr low
    · exact (Nat.digits_length_le_iff (by norm_num) _).mpr high
  have bound := v.toNat_lt
  unfold u32DecLen
  simp only [UInt32.le_iff_toNat_le, UInt32.reduceToNat]
  split_ifs
  · exact lengthEq 9 (by omega) (by omega)
  · exact lengthEq 8 (by omega) (by omega)
  · exact lengthEq 7 (by omega) (by omega)
  · exact lengthEq 6 (by omega) (by omega)
  · exact lengthEq 5 (by omega) (by omega)
  · exact lengthEq 4 (by omega) (by omega)
  · exact lengthEq 3 (by omega) (by omega)
  · exact lengthEq 2 (by omega) (by omega)
  · exact lengthEq 1 (by omega) (by omega)
  · exact lengthEq 0 (by omega) (by omega)

/-- The printed groups are the decimal digits, and their length is computed
right. -/
theorem printGroups_eq {groups : List UInt32} (positive : 0 < value)
    (groupsEq : groups.map UInt32.toNat = Nat.digits (10 ^ 9) value) :
    printGroups groups = digitChars (Nat.digits 10 value) ∧
      u32DecLen (groups.getLastD 0) + (groups.length - 1) * 9 =
        (Nat.digits 10 value).length := by
  induction groups generalizing value with
  | nil =>
    rw [map_nil, eq_comm, Nat.digits_eq_nil_iff_eq_zero] at groupsEq
    omega
  | cons group groups ih =>
    rw [Nat.digits_def' (by norm_num) positive, map_cons, cons.injEq] at groupsEq
    obtain ⟨here, rest⟩ := groupsEq
    have small : group.toNat < 10 ^ 9 := by
      rw [here]
      exact Nat.mod_lt _ (by norm_num)
    by_cases last : value / 10 ^ 9 = 0
    · -- A single group.
      rw [last, Nat.digits_zero, map_eq_nil_iff] at rest
      have valueEq : group.toNat = value := by omega
      subst rest
      rw [← valueEq] at positive ⊢
      refine ⟨?_, ?_⟩
      · have nonzero : group.toNat ≠ 0 := by omega
        simp [printGroups, printU, nonzero]
      · simpa using u32DecLen_eq positive
    · have positiveRest : 0 < value / 10 ^ 9 := Nat.pos_of_ne_zero last
      obtain ⟨text, length⟩ := ih positiveRest rest
      have nonempty : groups ≠ [] := by
        rintro rfl
        rw [map_nil, eq_comm, Nat.digits_eq_nil_iff_eq_zero] at rest
        omega
      have valueEq : value = group.toNat + 10 ^ 9 * (value / 10 ^ 9) := by
        rw [here]
        exact (Nat.mod_add_div _ _).symm
      have digitsEq := digits_group small positiveRest
      rw [← valueEq] at digitsEq
      refine ⟨?_, ?_⟩
      · rw [printGroups_cons group nonempty, text, digitsEq, digitChars_append, printU9]
      · have lengthPos := length_pos_iff.mpr nonempty
        have lastEq : (group :: groups).getLastD 0 = groups.getLastD 0 := by
          cases groups with
          | nil => exact absurd rfl nonempty
          | cons next groups => rfl
        rw [digitsEq, length_append, Nat.length_digitsAppend (by norm_num) 9 small, lastEq,
          length_cons]
        omega

/-- The digits of a BigInt's magnitude; zero has one. -/
def decimalDigits (magnitude : Nat) : List Nat :=
  if magnitude = 0 then [0x30] else digitChars (Nat.digits 10 magnitude)

theorem absToDecimalString_eq (value : Payload) :
    absToDecimalString value.limbs =
      (decimalDigits value.magnitude, (decimalDigits value.magnitude).length) := by
  have isZero := limbsIsZero_iff_limbsToNat value.nonempty value.normalized
  unfold absToDecimalString decimalDigits Payload.magnitude
  by_cases zero : limbsToNat value.limbs = 0
  · rw [if_pos (isZero.mpr zero), if_pos zero]
    rfl
  · rw [if_neg (mt isZero.mp zero), if_neg zero]
    have enough : limbsToNat value.limbs < (10 ^ 9) ^ (value.limbs.length * 2 + 1) := by
      calc limbsToNat value.limbs < (2 ^ 32) ^ value.limbs.length := limbsToNat_lt _
        _ ≤ ((10 ^ 9) ^ 2) ^ value.limbs.length := Nat.pow_le_pow_left (by norm_num) _
        _ = (10 ^ 9) ^ (2 * value.limbs.length) := (pow_mul _ _ _).symm
        _ ≤ (10 ^ 9) ^ (value.limbs.length * 2 + 1) :=
          Nat.pow_le_pow_right (by norm_num) (by omega)
    have groups := @digitGroups_eq value.limbs decGroupBase (by decide) _ value.nonempty
      value.normalized enough
    obtain ⟨text, length⟩ := printGroups_eq (Nat.pos_of_ne_zero zero) groups
    simp only [text, length]
    simp [digitChars]

end Printing

section Signed

/-- The decimal text of a BigInt. -/
def decimalText (value : Payload) : List Nat :=
  (if value.sign then [0x2D] else []) ++ decimalDigits value.magnitude

theorem digitsLen_add_sign (value : Payload) :
    digitsLen value + (if value.sign then 1 else 0) = (decimalText value).length := by
  rw [digitsLen, absToDecimalString_eq, decimalText, length_append, Nat.add_comm]
  split_ifs <;> rfl

/-- In a buffer with room for the text and a terminator, both are written. -/
theorem strbigint_eq (value : Payload) :
    strbigint value ((decimalText value).length + 1) = writeAt 0 (decimalText value ++ [0]) := by
  unfold strbigint
  rw [absToDecimalString_eq]
  cases sign : value.sign with
  | false =>
    simp only [decimalText, sign]
    simp [writeAt]
  | true =>
    simp only [decimalText, sign]
    simp [writeAt, Nat.add_comm 1]

theorem decimalDigits_ne_minus (isIn : char ∈ decimalDigits magnitude) :
    char ≠ 0x2D := by
  unfold decimalDigits at isIn
  split_ifs at isIn with zero
  · rw [mem_singleton.mp isIn]
    decide
  · obtain ⟨digit, -, rfl⟩ := mem_map.mp isIn
    omega

/-- The magnitude read back from its digits. -/
theorem ofDigits_decimalDigits (magnitude : Nat) :
    Nat.ofDigits 10 ((decimalDigits magnitude).reverse.map (· - 0x30)) = magnitude := by
  unfold decimalDigits
  split_ifs with zero
  · rw [zero]
    rfl
  · have digits : (digitChars (Nat.digits 10 magnitude)).reverse.map (· - 0x30) =
        Nat.digits 10 magnitude := by
      simp [digitChars, Function.comp_def]
    rw [digits, Nat.ofDigits_digits]

/-- Different integers have different texts. -/
theorem toInt_eq_of_decimalText {a b : Payload} (same : decimalText a = decimalText b) :
    a.toInt = b.toInt := by
  have sameSign (a b : Payload) (same : decimalText a = decimalText b)
      (aSign : a.sign = true) : b.sign = true := by
    by_contra bSign
    simp only [decimalText, aSign, bSign, if_false, nil_append] at same
    have isIn : 0x2D ∈ decimalDigits b.magnitude := by
      rw [← same]
      exact mem_cons_self
    exact decimalDigits_ne_minus isIn rfl
  have signs : a.sign = b.sign := by
    rw [Bool.eq_iff_iff]
    exact ⟨sameSign a b same, sameSign b a same.symm⟩
  rw [decimalText, decimalText, signs, append_cancel_left_eq] at same
  rw [Payload.toInt, Payload.toInt, signs, ← ofDigits_decimalDigits a.magnitude, same,
    ofDigits_decimalDigits]

theorem length_decimalDigits_le_iff {count : Nat} (positive : 0 < count) (magnitude : Nat) :
    (decimalDigits magnitude).length ≤ count ↔ magnitude < 10 ^ count := by
  unfold decimalDigits
  split_ifs with zero
  · rw [zero]
    exact ⟨fun _ => by positivity, fun _ => positive⟩
  · rw [digitChars, length_map, length_reverse]
    exact Nat.digits_length_le_iff (by norm_num) magnitude

/-- The text has at most `count` characters. -/
theorem length_decimalText_le_iff {count : Nat} (several : 1 < count) (value : Payload) :
    (decimalText value).length ≤ count ↔
      -(10 ^ (count - 1) : Int) < value.toInt ∧ value.toInt < 10 ^ count := by
  have below : (0 : Int) < 10 ^ (count - 1) := by positivity
  have above : (0 : Int) < 10 ^ count := by positivity
  unfold decimalText Payload.toInt
  cases value.sign with
  | false =>
    rw [if_neg (by simp), nil_append, length_decimalDigits_le_iff (by omega), ← @Nat.cast_lt Int]
    push_cast
    omega
  | true =>
    have shorter : 1 + (decimalDigits value.magnitude).length ≤ count ↔
        (decimalDigits value.magnitude).length ≤ count - 1 := by omega
    rw [if_pos rfl, if_pos rfl, length_append, length_singleton, shorter,
      length_decimalDigits_le_iff (by omega), ← @Nat.cast_lt Int]
    push_cast
    omega

end Signed

end AntRuntime.BigInt
