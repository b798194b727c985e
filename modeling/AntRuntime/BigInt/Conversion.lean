import AntRuntime.BigInt.Division
import AntRuntime.Floats.Binary64
import AntRuntime.Numeral.Printing

/-!
# Making BigInts from text and from doubles

A BigInt is built from limbs, which are normalised first. Digits are read by multiplying
the limbs by the base and adding the digit; a whole double is read from the bits of its
significand, shifted into an array of 33 limbs. Comparing two BigInts compares the
integers.
-/

namespace AntRuntime.BigInt

open List Numeral UInt32
open Floats (Double)

section Model

/-- `hex_digit`. -/
def hexDigit (ch : UInt8) : Option Nat :=
  if 48 ≤ ch ∧ ch ≤ 57 then some (ch.toNat - 48)
  else if 97 ≤ ch ∧ ch ≤ 102 then some (ch.toNat - 87)
  else if 65 ≤ ch ∧ ch ≤ 70 then some (ch.toNat - 55)
  else none

/-- The limbs times the base plus a carry. -/
def mulAddLoop (base : UInt64) (carry : UInt64) : List UInt32 → List UInt32 × UInt64
  | [] => ([], carry)
  | limb :: rest =>
    let cur := limb.toUInt64 * base + carry
    let result := mulAddLoop base (cur >>> 32) rest
    (cur.toUInt32 :: result.1, result.2)

/-- `append_carry_limbs`. -/
def carryLimbs (carry : UInt64) : List UInt32 :=
  if carry = 0 then []
  else if carry >>> 32 = 0 then [carry.toUInt32]
  else [carry.toUInt32, (carry >>> 32).toUInt32]

/-- One digit. -/
def pushDigit (base digit : Nat) (limbs : List UInt32) : List UInt32 :=
  let result := mulAddLoop (UInt64.ofNat base) (UInt64.ofNat digit) limbs
  result.1 ++ carryLimbs result.2

/-- The loop of `bigint_from_string_digits`: the limbs, whether there was a digit and
whether the last character was a separator. -/
def digitLoop (base : Nat) (allowSeparators : Bool) :
    List UInt32 → Bool → Bool → List UInt8 → Option (List UInt32 × Bool × Bool)
  | limbs, hasDigit, prevSep, [] => some (limbs, hasDigit, prevSep)
  | limbs, hasDigit, prevSep, ch :: rest =>
    if ch = 95 then
      if !allowSeparators || !hasDigit || prevSep then none
      else digitLoop base allowSeparators limbs hasDigit true rest
    else
      match hexDigit ch with
      | none => none
      | some digit =>
        if base ≤ digit then none
        else digitLoop base allowSeparators (pushDigit base digit limbs) true false rest

/-- The base that a text starts with, and what follows. -/
def readBase : List UInt8 → Nat × List UInt8
  | 48 :: p :: rest =>
    if p ||| 32 = 120 then (16, rest)
    else if p ||| 32 = 111 then (8, rest)
    else if p ||| 32 = 98 then (2, rest)
    else (10, 48 :: p :: rest)
  | digits => (10, digits)

/-- `bigint_from_string_digits`; an error is `none`. -/
def bigintFromStringDigits (digits : List UInt8) (negative allowSeparators : Bool) :
    Option Payload :=
  if digits = [] then some (mkBigintLimbs [0] false)
  else if (readBase digits).2 = [] then none
  else
    match digitLoop (readBase digits).1 allowSeparators [0] false false (readBase digits).2 with
    | none => none
    | some (limbs, hasDigit, prevSep) =>
      if !hasDigit || prevSep then none else some (mkBigintLimbs limbs negative)

/-- `js_mkbigint`. -/
def jsMkbigint (digits : List UInt8) (negative : Bool) : Option Payload :=
  bigintFromStringDigits digits negative true

/-- `DOUBLE_LIMB_CAP`. -/
def doubleLimbCap : Nat := 33

/-- A part of the mantissa is shifted into the limbs. -/
def placePart (wordShift bitShift i : Nat) (part : UInt32) (limbs : List UInt32) :
    Option (List UInt32) :=
  if part = 0 then some limbs
  else
    let dst := wordShift + i
    if doubleLimbCap ≤ dst then none
    else
      let limbs := limbs.set dst (limbs.getD dst 0 ||| part <<< UInt32.ofNat bitShift)
      if bitShift = 0 then some limbs
      else if doubleLimbCap ≤ dst + 1 then none
      else
        some (limbs.set (dst + 1)
          (limbs.getD (dst + 1) 0 ||| part >>> UInt32.ofNat (32 - bitShift)))

/-- `bigint_from_integral_double`; an error is `none`. -/
def bigintFromIntegralDouble (value : Double) : Option Payload :=
  if value.isFinite = false ∨ value.floor.eq value = false then none
  else if value.eq (.zero false) then some (mkBigintLimbs [0] false)
  else if value.exponent = 0 then some (mkBigintLimbs [0] false)
  else
    let mantissa := 2 ^ 52 + value.fraction
    if value.exponent < 1023 + 52 then
      let magnitude := mantissa / 2 ^ (52 + 1023 - value.exponent)
      let low := UInt32.ofNat (magnitude % 2 ^ 32)
      some (mkBigintLimbs
        (if 2 ^ 32 ≤ magnitude then [low, UInt32.ofNat (magnitude / 2 ^ 32)] else [low])
        value.negative)
    else
      let shift := value.exponent - 1023 - 52
      match placePart (shift / 32) (shift % 32) 0 (UInt32.ofNat (mantissa % 2 ^ 32))
          (replicate doubleLimbCap 0) with
      | none => none
      | some limbs =>
        match placePart (shift / 32) (shift % 32) 1 (UInt32.ofNat (mantissa / 2 ^ 32)) limbs with
        | none => none
        | some limbs => some (mkBigintLimbs limbs value.negative)

/-- `bigint_compare`. -/
def bigintCompare (a b : Payload) : Int :=
  if a.sign = true ∧ b.sign = false then -1
  else if a.sign = false ∧ b.sign = true then 1
  else if a.sign then -cmpAbsLimbs a.limbs b.limbs
  else cmpAbsLimbs a.limbs b.limbs

end Model

section Comparing

theorem cmpLimbsLoop_neg (a b : List UInt32) (count : Nat) :
    cmpLimbsLoop b a count = -cmpLimbsLoop a b count := by
  induction count with
  | zero => rfl
  | succ count ih =>
    rw [cmpLimbsLoop, cmpLimbsLoop]
    by_cases same : a.getD count 0 = b.getD count 0
    · rw [if_neg (not_not.mpr same.symm), if_neg (not_not.mpr same), ih]
    · rw [if_pos (Ne.symm same), if_pos same]
      rw [← UInt32.toNat_inj] at same
      simp only [lt_iff_toNat_lt]
      split_ifs <;> first | rfl | omega

theorem cmpAbsLimbs_neg (a b : List UInt32) : cmpAbsLimbs b a = -cmpAbsLimbs a b := by
  unfold cmpAbsLimbs
  by_cases same : normalizeLimbsCount a a.length = normalizeLimbsCount b b.length
  · rw [if_neg (not_not.mpr same.symm), if_neg (not_not.mpr same), ← same]
    exact cmpLimbsLoop_neg a b _
  · rw [if_pos (Ne.symm same), if_pos same]
    split_ifs <;> first | rfl | omega

/-- The sign of the comparison of the magnitudes. -/
theorem cmpAbsLimbs_sign {a b : List UInt32} (nonemptyA : a ≠ []) (nonemptyB : b ≠ []) :
    (cmpAbsLimbs a b < 0 ↔ limbsToNat a < limbsToNat b) ∧
      (0 < cmpAbsLimbs a b ↔ limbsToNat b < limbsToNat a) := by
  refine ⟨cmpAbsLimbs_neg_iff nonemptyA nonemptyB, ?_⟩
  have other := cmpAbsLimbs_neg_iff nonemptyB nonemptyA
  rw [cmpAbsLimbs_neg a b] at other
  omega

/-- Comparing BigInts compares the integers. -/
theorem bigintCompare_sign (a b : Payload) :
    (bigintCompare a b < 0 ↔ a.toInt < b.toInt) ∧ (0 < bigintCompare a b ↔ b.toInt < a.toInt) := by
  obtain ⟨less, greater⟩ := cmpAbsLimbs_sign a.nonempty b.nonempty
  change _ ↔ a.magnitude < b.magnitude at less
  change _ ↔ b.magnitude < a.magnitude at greater
  have positiveA := @magnitude_pos_of_sign a
  have positiveB := @magnitude_pos_of_sign b
  unfold bigintCompare Payload.toInt
  cases signA : a.sign <;> cases signB : b.sign <;> simp [signA, signB] at positiveA positiveB ⊢ <;>
    omega

end Comparing

section Digits

variable {text : List UInt8}

theorem length_mulAddLoop (base carry : UInt64) (limbs : List UInt32) :
    (mulAddLoop base carry limbs).1.length = limbs.length := by
  induction limbs generalizing carry with
  | nil => rfl
  | cons limb limbs ih => simp [mulAddLoop, ih]

/-- The pass multiplies by the base and adds the carry. -/
theorem mulAddLoop_value
    (baseSmall : base.toNat ≤ 16) (carrySmall : carry.toNat < 2 ^ 32) (limbs : List UInt32) :
    limbsToNat (mulAddLoop base carry limbs).1 +
          (2 ^ 32) ^ limbs.length * (mulAddLoop base carry limbs).2.toNat =
        limbsToNat limbs * base.toNat + carry.toNat ∧
      (mulAddLoop base carry limbs).2.toNat < 2 ^ 32 := by
  induction limbs generalizing carry with
  | nil => simpa [mulAddLoop] using carrySmall
  | cons limb limbs ih =>
    simp only [mulAddLoop]
    generalize curEq : limb.toUInt64 * base + carry = cur
    have product : limb.toNat * base.toNat ≤ (2 ^ 32 - 1) * 16 :=
      Nat.mul_le_mul (Nat.le_sub_one_of_lt limb.toNat_lt) baseSmall
    have curValue : cur.toNat = limb.toNat * base.toNat + carry.toNat := by
      rw [← curEq, UInt64.toNat_add, UInt64.toNat_mul, toNat_toUInt64]
      omega
    have nextSmall : (cur >>> 32).toNat < 2 ^ 32 := by
      rw [toNat_shiftRight_32]
      omega
    obtain ⟨value, outSmall⟩ := ih nextSmall
    refine ⟨?_, outSmall⟩
    rw [toNat_shiftRight_32] at value
    simp only [limbsToNat_cons, UInt64.toNat_toUInt32, length_cons]
    rw [recombine_carry value, curValue]
    ring

theorem limbsToNat_carryLimbs (carrySmall : carry.toNat < 2 ^ 32) :
    limbsToNat (carryLimbs carry) = carry.toNat := by
  have high : carry >>> 32 = 0 := by
    rw [← UInt64.toNat_inj, toNat_shiftRight_32, Nat.div_eq_of_lt carrySmall]
    rfl
  unfold carryLimbs
  split_ifs with isZero
  · rw [isZero]
    rfl
  · rw [limbsToNat_cons, limbsToNat_nil, UInt64.toNat_toUInt32, Nat.mod_eq_of_lt carrySmall,
      Nat.mul_zero, Nat.add_zero]

/-- A digit is put behind the others. -/
theorem limbsToNat_pushDigit
    {base digit : Nat} (baseSmall : base ≤ 16) (isDigit : digit < base) (limbs : List UInt32) :
    limbsToNat (pushDigit base digit limbs) = limbsToNat limbs * base + digit := by
  have baseEq := LeadingLimbs.toNat_ofNat_limb (show base < 2 ^ 32 by omega)
  have digitEq := LeadingLimbs.toNat_ofNat_limb (show digit < 2 ^ 32 by omega)
  obtain ⟨value, outSmall⟩ :=
    @mulAddLoop_value (UInt64.ofNat base) (UInt64.ofNat digit) (by omega) (by omega) limbs
  rw [pushDigit, limbsToNat_append, limbsToNat_carryLimbs outSmall, length_mulAddLoop, value,
    baseEq, digitEq]

theorem hexDigit_digitByte (isDigit : digit < 10) :
    hexDigit (digitByte digit) = some digit := by
  have all : ∀ digit < 10, hexDigit (digitByte digit) = some digit := by decide
  exact all digit isDigit

/-- The number that the digits of a text denote. -/
def denoted (base : Nat) (text : List UInt8) : Nat :=
  text.foldl (fun value byte => value * base + (hexDigit byte).getD 0) 0

/-- The loop reads a text of digits. -/
theorem digitLoop_digits {base : Nat} (baseSmall : base ≤ 16)
    (areDigits : ∀ byte ∈ text, ∃ digit < base, hexDigit byte = some digit)
    (allowSeparators hasDigit : Bool) (limbs : List UInt32) :
    ∃ result, digitLoop base allowSeparators limbs hasDigit false text =
        some (result, hasDigit || !text.isEmpty, false) ∧
      limbsToNat result =
        text.foldl (fun value byte => value * base + (hexDigit byte).getD 0)
          (limbsToNat limbs) := by
  induction text generalizing limbs hasDigit with
  | nil => exact ⟨limbs, by simp [digitLoop], rfl⟩
  | cons byte rest ih =>
    obtain ⟨digit, isDigit, reads⟩ := areDigits byte (mem_cons_self ..)
    have notSeparator : byte ≠ 95 := by
      rintro rfl
      cases reads
    obtain ⟨result, runs, value⟩ := ih
      (fun byte isIn => areDigits byte (mem_cons_of_mem _ isIn)) true
      (pushDigit base digit limbs)
    refine ⟨result, ?_, ?_⟩
    · rw [digitLoop, if_neg notSeparator, reads]
      simp [Nat.not_le.mpr isDigit, runs]
    · rw [value, limbsToNat_pushDigit baseSmall isDigit, foldl_cons, reads, Option.getD_some]

/-- A text of digits is read as the number it denotes. -/
theorem bigintFromStringDigits_digits {base : Nat} {rest : List UInt8} (baseSmall : base ≤ 16)
    (hasBase : readBase text = (base, rest)) (nonempty : rest ≠ [])
    (areDigits : ∀ byte ∈ rest, ∃ digit < base, hexDigit byte = some digit)
    (negative allowSeparators : Bool) :
    ∃ payload, bigintFromStringDigits text negative allowSeparators = some payload ∧
      payload.toInt = if negative then -(denoted base rest : Int) else denoted base rest := by
  have notEmpty : text ≠ [] := by
    rintro rfl
    exact nonempty (congrArg Prod.snd hasBase).symm
  obtain ⟨limbs, runs, limbsValue⟩ :=
    digitLoop_digits baseSmall areDigits allowSeparators false [0]
  refine ⟨mkBigintLimbs limbs negative, ?_, ?_⟩
  · rw [bigintFromStringDigits, hasBase, runs]
    simp [nonempty, notEmpty]
  · rw [toInt_mkBigintLimbs, limbsValue]
    rfl

section

variable (areDigits : ∀ byte ∈ text, ∃ digit < 10, byte = digitByte digit)
include areDigits

/-- A decimal text has no base in front. -/
theorem readBase_decimal : readBase text = (10, text) := by
  have noLetter : ∀ digit < 10, digitByte digit ||| 32 ≠ 120 ∧
      digitByte digit ||| 32 ≠ 111 ∧ digitByte digit ||| 32 ≠ 98 := by
    decide
  unfold readBase
  split
  · next second rest =>
      obtain ⟨digit, isDigit, rfl⟩ := areDigits second (by simp)
      obtain ⟨notHex, notOctal, notBinary⟩ := noLetter digit isDigit
      rw [if_neg notHex, if_neg notOctal, if_neg notBinary]
  · rfl

end

/-- A printed number is read back. -/
theorem bigintFromStringDigits_print (value : Nat) (negative allowSeparators : Bool) :
    ∃ payload, bigintFromStringDigits (print 10 value) negative allowSeparators = some payload ∧
      payload.toInt = if negative then -(value : Int) else value := by
  have areDigits (byte : UInt8) (isIn : byte ∈ print 10 value) := mem_print (by decide) isIn
  have read := bigintFromStringDigits_digits (by decide) (readBase_decimal areDigits)
    (print_ne_nil 10 value)
    (fun byte isIn => (areDigits byte isIn).imp fun digit ⟨isDigit, isByte⟩ =>
      ⟨isDigit, isByte ▸ hexDigit_digitByte isDigit⟩) negative allowSeparators
  rwa [denoted, foldl_print (by decide)] at read
  intro digit isDigit
  rw [hexDigit_digitByte isDigit, Option.getD_some]

end Digits

section Doubles

/-- Writing a limb exchanges its share of the value. -/
theorem limbsToNat_set
    {limbs : List UInt32} (inside : position < limbs.length) (limb : UInt32) :
    limbsToNat (limbs.set position limb) +
        (limbs.getD position 0).toNat * (2 ^ 32) ^ position =
      limbsToNat limbs + limb.toNat * (2 ^ 32) ^ position := by
  induction limbs generalizing position with
  | nil => cases inside
  | cons first rest ih =>
    cases position with
    | zero =>
      simp only [set_cons_zero, limbsToNat_cons, getD_cons_zero]
      omega
    | succ position =>
      have value := ih (Nat.lt_of_succ_lt_succ inside)
      rw [set_cons_succ, limbsToNat_cons, limbsToNat_cons, getD_cons_succ,
        Nat.pow_succ ((2 : Nat) ^ 32)]
      linarith

theorem getD_set_ne (limbs : List UInt32) (limb : UInt32) (different : position ≠ other) :
    (limbs.set position limb).getD other 0 = limbs.getD other 0 := by
  rw [getD_eq_getElem?_getD, getElem?_set_ne different, getD_eq_getElem?_getD]

theorem getD_set_self {limbs : List UInt32} (inside : position < limbs.length)
    (limb : UInt32) : (limbs.set position limb).getD position 0 = limb := by
  rw [getD_eq_getElem?_getD, getElem?_set_self inside, Option.getD_some]

section Parts

variable (small : bitShift < 32)
include small

theorem toNat_ofNat_shift : (UInt32.ofNat bitShift).toNat = bitShift :=
  toNat_ofNat_of_lt' (by
    change bitShift < 2 ^ 32
    omega)

/-- The low half of a shifted part goes above the bits that are there. -/
theorem toNat_or_shiftLeft (part : UInt32) (oldSmall : old.toNat < 2 ^ bitShift) :
    (old ||| part <<< UInt32.ofNat bitShift).toNat =
      old.toNat + part.toNat * 2 ^ bitShift % 2 ^ 32 := by
  have split : part.toNat * 2 ^ bitShift % 2 ^ 32 =
      2 ^ bitShift * (part.toNat % 2 ^ (32 - bitShift)) := by
    rw [← pow_mul_pow_sub 2 (Nat.le_of_lt small), Nat.mul_comm part.toNat, Nat.mul_mod_mul_left]
  rw [UInt32.toNat_or, UInt32.toNat_shiftLeft, toNat_ofNat_shift small, Nat.mod_eq_of_lt small,
    Nat.shiftLeft_eq, split, Nat.or_comm, ← Nat.two_pow_add_eq_or_of_lt oldSmall, Nat.add_comm]

/-- The high half of a shifted part. -/
theorem toNat_shiftRight_rest (part : UInt32) (positive : 0 < bitShift) :
    (part >>> UInt32.ofNat (32 - bitShift)).toNat = part.toNat * 2 ^ bitShift / 2 ^ 32 := by
  rw [UInt32.toNat_shiftRight, toNat_ofNat_shift (by omega), Nat.mod_eq_of_lt (by omega),
    Nat.shiftRight_eq_div_pow, ← pow_sub_mul_pow 2 (Nat.le_of_lt small),
    Nat.mul_div_mul_right _ _ (Nat.two_pow_pos _)]

/-- A part is added to the limbs where its place has only bits below it. -/
theorem placePart_spec
    {wordShift i : Nat} {limbs : List UInt32} (inside : wordShift + i + 1 < doubleLimbCap)
    (lengthEq : limbs.length = doubleLimbCap)
    (below : (limbs.getD (wordShift + i) 0).toNat < 2 ^ bitShift)
    (free : limbs.getD (wordShift + i + 1) 0 = 0) (part : UInt32) :
    ∃ result, placePart wordShift bitShift i part limbs = some result ∧
      result.length = doubleLimbCap ∧
      limbsToNat result =
        limbsToNat limbs + part.toNat * 2 ^ bitShift * (2 ^ 32) ^ (wordShift + i) ∧
      (result.getD (wordShift + i + 1) 0).toNat < 2 ^ bitShift ∧
      result.getD (wordShift + i + 2) 0 = limbs.getD (wordShift + i + 2) 0 := by
  have freeSmall : (0 : UInt32).toNat < 2 ^ bitShift := Nat.two_pow_pos _
  unfold placePart
  generalize wordShift + i = dst at inside below free ⊢
  by_cases isZero : part = 0
  · refine ⟨limbs, if_pos isZero, lengthEq, ?_, ?_, rfl⟩
    · rw [isZero, UInt32.toNat_zero, Nat.zero_mul, Nat.zero_mul, Nat.add_zero]
    · rw [free]
      exact freeSmall
  · rw [if_neg isZero, if_neg (by omega)]
    generalize lowEq : limbs.getD dst 0 ||| part <<< UInt32.ofNat bitShift = low
    have lowValue := limbsToNat_set (show dst < limbs.length by omega) low
    rw [← lowEq, toNat_or_shiftLeft small part below, lowEq] at lowValue
    by_cases aligned : bitShift = 0
    · refine ⟨limbs.set dst low, if_pos aligned, by rw [length_set, lengthEq], ?_, ?_, ?_⟩
      · have whole : part.toNat * 2 ^ bitShift % 2 ^ 32 = part.toNat * 2 ^ bitShift := by
          rw [aligned, Nat.pow_zero, Nat.mul_one]
          exact Nat.mod_eq_of_lt part.toNat_lt
        rw [whole] at lowValue
        linarith
      · rw [getD_set_ne _ _ (by omega), free]
        exact freeSmall
      · exact getD_set_ne _ _ (by omega)
    · have high := toNat_shiftRight_rest small part (Nat.pos_of_ne_zero aligned)
      have highSmall : part.toNat * 2 ^ bitShift / 2 ^ 32 < 2 ^ bitShift := by
        rw [Nat.div_lt_iff_lt_mul (Nat.two_pow_pos 32), Nat.mul_comm]
        exact Nat.mul_lt_mul_of_pos_left part.toNat_lt (Nat.two_pow_pos _)
      have inside' : dst + 1 < (limbs.set dst low).length := by
        rw [length_set]
        omega
      have highValue := limbsToNat_set inside' (part >>> UInt32.ofNat (32 - bitShift))
      have recombined := Nat.mod_add_div (part.toNat * 2 ^ bitShift) (2 ^ 32)
      rw [if_neg aligned, if_neg (by omega)]
      rw [getD_set_ne _ _ (by omega), free] at highValue ⊢
      rw [UInt32.zero_or]
      refine ⟨_, rfl, by rw [length_set, length_set, lengthEq], ?_, ?_, ?_⟩
      · rw [high, UInt32.toNat_zero, Nat.pow_succ ((2 : Nat) ^ 32)] at highValue
        rw [← recombined]
        linarith
      · rw [getD_set_self inside', high]
        exact highSmall
      · rw [getD_set_ne _ _ (by omega), getD_set_ne _ _ (by omega)]

end Parts

variable {value : Double}

theorem toNat_low_and_high (small : magnitude < 2 ^ 64) :
    (UInt32.ofNat (magnitude % 2 ^ 32)).toNat + 2 ^ 32 * (UInt32.ofNat (magnitude / 2 ^ 32)).toNat =
      magnitude := by
  rw [toNat_ofNat', toNat_ofNat']
  omega

/-- The two parts of a mantissa make its multiple by a power of two. -/
theorem placeParts_spec (shiftSmall : shift < 992) (small : mantissa < 2 ^ 64) :
    ∃ first second,
      placePart (shift / 32) (shift % 32) 0 (UInt32.ofNat (mantissa % 2 ^ 32))
        (replicate doubleLimbCap 0) = some first ∧
      placePart (shift / 32) (shift % 32) 1 (UInt32.ofNat (mantissa / 2 ^ 32)) first =
        some second ∧
      limbsToNat second = mantissa * 2 ^ shift := by
  have bitsBelow := Nat.mod_lt shift (show 32 > 0 by decide)
  have getZero (position : Nat) :
      (replicate doubleLimbCap (0 : UInt32)).getD position 0 = 0 := by
    rw [getD_eq_getElem?_getD, getElem?_replicate]
    split_ifs <;> rfl
  have zeroBelow (position : Nat) :
      ((replicate doubleLimbCap (0 : UInt32)).getD position 0).toNat < 2 ^ (shift % 32) := by
    rw [getZero]
    exact Nat.two_pow_pos _
  have zeroValue : limbsToNat (replicate doubleLimbCap 0) = 0 := by decide
  obtain ⟨first, firstRuns, firstLength, firstValue, firstBelow, firstFree⟩ :=
    @placePart_spec _ bitsBelow (shift / 32) 0 _ (by rw [doubleLimbCap]; omega)
      length_replicate (zeroBelow _) (getZero _) (UInt32.ofNat (mantissa % 2 ^ 32))
  obtain ⟨second, secondRuns, -, secondValue, -, -⟩ :=
    @placePart_spec _ bitsBelow (shift / 32) 1 _ (by rw [doubleLimbCap]; omega)
      firstLength firstBelow (firstFree.trans (getZero _)) (UInt32.ofNat (mantissa / 2 ^ 32))
  refine ⟨first, second, firstRuns, secondRuns, ?_⟩
  have power : 2 ^ shift = 2 ^ (shift % 32) * (2 ^ 32) ^ (shift / 32) := by
    rw [← Nat.pow_mul, ← Nat.pow_add, Nat.mod_add_div]
  have split := toNat_low_and_high small
  rw [secondValue, firstValue, zeroValue, power]
  conv_rhs => rw [← split]
  ring

/-- Below the exponent of the last whole digit the significand is shifted right. -/
theorem whole_of_small (normal : value.exponent ≠ 0) (small : value.exponent < 1023 + 52) :
    value.whole = (2 ^ 52 + value.fraction) / 2 ^ (52 + 1023 - value.exponent) := by
  have unitEq : Double.unit = 2 ^ (52 + 1023 - value.exponent) * 2 ^ value.exponent := by
    rw [Double.two_pow_mul_two_pow]
    rw [Double.unitExponent]
    omega
  rw [Double.whole, Double.scaled, Double.significand, if_neg normal,
    Nat.max_eq_left (Nat.pos_of_ne_zero normal), unitEq,
    Nat.mul_div_mul_right _ _ (Nat.two_pow_pos _)]

/-- From the exponent of the last whole digit on the significand is shifted left. -/
theorem whole_of_large (large : 1023 + 52 ≤ value.exponent) :
    value.whole = (2 ^ 52 + value.fraction) * 2 ^ (value.exponent - 1023 - 52) := by
  have power : 2 ^ value.exponent = 2 ^ (value.exponent - 1023 - 52) * Double.unit := by
    rw [Double.unit, ← Nat.pow_add]
    congr 1
    rw [Double.unitExponent]
    omega
  rw [Double.whole, Double.scaled, Double.significand, if_neg (by omega),
    Nat.max_eq_left (by omega), power, ← Nat.mul_assoc, Nat.mul_div_cancel _ Double.unit_pos]

theorem whole_of_subnormal (subnormal : value.exponent = 0) : value.whole = 0 := by
  have fraction := value.fraction_lt
  have power : 2 ^ 53 ≤ Double.unit := Nat.pow_le_pow_right (by decide) (by decide)
  rw [Double.whole, Double.scaled, Double.significand, if_pos subnormal, subnormal,
    Nat.div_eq_of_lt]
  simp only [Nat.zero_le, Nat.max_eq_right]
  omega

/-- A whole double becomes that integer. -/
theorem bigintFromIntegralDouble_spec
    (finite : value.isFinite = true) (isWhole : value.isWhole = true) :
    ∃ payload, bigintFromIntegralDouble value = some payload ∧ payload.toInt = value.floorInt := by
  have floorEq := Double.eq_floor finite
  have floorInt : value.floorInt =
      if value.negative then -(value.whole : Int) else value.whole := by
    rw [Double.floorInt, if_pos isWhole]
  have zeroInt : (mkBigintLimbs [0] false).toInt = 0 := rfl
  rw [bigintFromIntegralDouble, if_neg (by simp [finite, floorEq, isWhole]), floorInt]
  by_cases isZero : value.eq (.zero false) = true
  · refine ⟨_, if_pos isZero, ?_⟩
    rw [Double.eq_of_finite finite rfl, Double.sameValue, decide_eq_true_iff] at isZero
    have zeroScaled : (Double.zero false).scaled = 0 := rfl
    have wholeZero : value.whole = 0 := by rw [Double.whole, isZero.1, zeroScaled, Nat.zero_div]
    simp [zeroInt, wholeZero]
  rw [if_neg isZero]
  by_cases subnormal : value.exponent = 0
  · refine ⟨_, if_pos subnormal, ?_⟩
    simp [zeroInt, whole_of_subnormal subnormal]
  rw [if_neg subnormal]
  have fraction := value.fraction_lt
  by_cases small : value.exponent < 1023 + 52
  · rw [if_pos small]
    refine ⟨_, rfl, ?_⟩
    rw [toInt_mkBigintLimbs, ← whole_of_small subnormal small]
    have bound := Double.whole_lt small
    have limbsEq := toNat_low_and_high (show value.whole < 2 ^ 64 by omega)
    have sameValue : limbsToNat (if 2 ^ 32 ≤ value.whole then
        [UInt32.ofNat (value.whole % 2 ^ 32), UInt32.ofNat (value.whole / 2 ^ 32)]
        else [UInt32.ofNat (value.whole % 2 ^ 32)]) = value.whole := by
      split_ifs with twoLimbs
      · simpa using limbsEq
      · rw [Nat.div_eq_of_lt (Nat.not_le.mp twoLimbs)] at limbsEq
        simpa using limbsEq
    rw [sameValue]
  · rw [if_neg small]
    have large := Nat.not_lt.mp small
    have exponent := value.exponent_lt
    obtain ⟨first, second, firstRuns, secondRuns, secondValue⟩ :=
      placeParts_spec (show value.exponent - 1023 - 52 < 992 by omega)
        (show 2 ^ 52 + value.fraction < 2 ^ 64 by omega)
    refine ⟨mkBigintLimbs second value.negative, by simp only [firstRuns, secondRuns], ?_⟩
    rw [toInt_mkBigintLimbs, secondValue, whole_of_large large]

end Doubles

end AntRuntime.BigInt
