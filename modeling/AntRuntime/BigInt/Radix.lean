import AntRuntime.BigInt.Decimal
import AntRuntime.BigInt.Arithmetic
import Mathlib.Data.List.DropRight

/-!
# Text of BigInts

A BigInt is printed to any base from 2 to 36, and read from decimal digits or from digits behind
`0x`, `0o` or `0b`. The decimal text of a BigInt reads as the BigInt.
-/

namespace AntRuntime.BigInt

open List Numeral

section Model

/-- `bigint_abs_to_radix_string`. -/
def absToRadixString (limbs : List UInt32) (radix : UInt32) : List UInt8 :=
  if limbsIsZero limbs then [48]
  else
    ((digitGroups radix (limbs.length * 32 + 1) limbs).map fun rem => digitByte rem.toNat).reverse

/-- `builtin_bigint_toString` with a radix. -/
def bigintToString (value : Payload) (radix : Nat) : Except String (List UInt8) :=
  if radix < 2 ∨ 36 < radix then .error "radix must be between 2 and 36"
  else
    let digits :=
      if radix = 10 then (absToDecimalString value.limbs).1.map UInt8.ofNat
      else absToRadixString value.limbs (.ofNat radix)
    .ok (if value.sign then 45 :: digits else digits)

/-- `is_space`. -/
def isSpace (c : UInt8) : Bool :=
  c = 9 || c = 10 || c = 13 || c = 32

/-- The sign in front of the digits. -/
def readSign : List UInt8 → Bool × List UInt8
  | 45 :: digits => (true, digits)
  | 43 :: digits => (false, digits)
  | digits => (false, digits)

/-- `bigint_from_value` of a string, with the check of `bigint_alloc_payload`. -/
def bigintFromString (str : List UInt8) : Except String Payload :=
  let trimmed := (str.dropWhile isSpace).rdropWhile isSpace
  if trimmed = [] then .ok (mkBigintLimbs [0] false)
  else
    let signed := readSign trimmed
    if signed.2 = [] then .error "Cannot convert string to BigInt"
    else
      match bigintFromStringDigits signed.2 signed.1 false with
      | none => .error "Cannot convert string to BigInt"
      | some value => finishIn value.limbs.length value.limbs value.sign

end Model

section Printing

theorem print_eq_digits (several : 1 < base) (value : Nat) :
    print base value =
      if value = 0 then [48] else ((Nat.digits base value).map digitByte).reverse := by
  induction value using print_induct several with
  | single value small =>
    have below := (Nat.div_eq_zero_iff.mp small).resolve_left (Nat.ne_zero_of_lt several)
    rw [print_of_small small, Nat.mod_eq_of_lt below]
    split_ifs with isZero
    · rw [isZero]
      rfl
    · rw [Nat.digits_of_lt base value isZero below]
      rfl
  | append value more ih =>
    have nonzero : value ≠ 0 := fun isZero => more (by rw [isZero, Nat.zero_div])
    rw [print_eq_append several more, ih, if_neg more, if_neg nonzero,
      Nat.digits_def' several (Nat.pos_of_ne_zero nonzero), map_cons, reverse_cons]

theorem map_decimalDigits (magnitude : Nat) :
    (decimalDigits magnitude).map UInt8.ofNat = print 10 magnitude := by
  rw [print_eq_digits (by decide), decimalDigits]
  split_ifs
  · rfl
  · rw [digitChars, map_map, ← map_reverse]
    refine map_congr_left fun digit isIn => ?_
    have isDigit := Nat.digits_lt_base (by decide) (mem_reverse.mp isIn)
    rw [digitByte, if_pos isDigit, Function.comp_apply]

theorem absToRadixString_eq (value : Payload) (several : 1 < radix.toNat) :
    absToRadixString value.limbs radix = print radix.toNat value.magnitude := by
  have isZero := limbsIsZero_iff_limbsToNat value.nonempty value.normalized
  rw [print_eq_digits several, absToRadixString, Payload.magnitude]
  simp only [isZero]
  split_ifs
  · rfl
  · have enough : limbsToNat value.limbs < radix.toNat ^ (value.limbs.length * 32 + 1) :=
      calc limbsToNat value.limbs < (2 ^ 32) ^ value.limbs.length := limbsToNat_lt _
        _ = 2 ^ (32 * value.limbs.length) := (pow_mul _ _ _).symm
        _ ≤ radix.toNat ^ (32 * value.limbs.length) := Nat.pow_le_pow_left several _
        _ ≤ radix.toNat ^ (value.limbs.length * 32 + 1) :=
          Nat.pow_le_pow_right (by omega) (by omega)
    rw [← digitGroups_eq several _ value.nonempty value.normalized enough, map_map]
    rfl

/-- The text is the sign and the digits of the magnitude. -/
theorem bigintToString_eq (value : Payload) (several : 2 ≤ radix) (most : radix ≤ 36) :
    bigintToString value radix =
      .ok ((if value.sign then [45] else []) ++ print radix value.magnitude) := by
  have toNat : (UInt32.ofNat radix).toNat = radix := by
    rw [UInt32.toNat_ofNat']
    omega
  have digits : (if radix = 10 then (absToDecimalString value.limbs).1.map UInt8.ofNat
      else absToRadixString value.limbs (.ofNat radix)) = print radix value.magnitude := by
    split_ifs with isDecimal
    · rw [absToDecimalString_eq, map_decimalDigits, isDecimal]
    · rw [absToRadixString_eq value (by omega), toNat]
  rw [bigintToString, if_neg (by omega)]
  simp only [digits]
  cases value.sign <;> rfl

end Printing

section Reading

variable {text digits : List UInt8}

/-- Spaces around a text without spaces are nowhere. -/
theorem trim_eq_self (noSpace : ∀ c ∈ text, isSpace c = false) :
    (text.dropWhile isSpace).rdropWhile isSpace = text := by
  have front : text.dropWhile isSpace = text :=
    dropWhile_eq_self_iff.mpr fun _ => by simp [noSpace _ (getElem_mem _)]
  rw [front, rdropWhile_eq_self_iff]
  intro nonempty
  simp [noSpace _ (getLast_mem nonempty)]

/-- A sign and digits are read as the digits are. -/
theorem computes_bigintFromString {payload : Payload}
    (noSpace : ∀ c ∈ text, isSpace c = false) (hasSign : readSign text = (negative, digits))
    (nonempty : digits ≠ []) (reads : bigintFromStringDigits digits negative false = some payload) :
    Computes (bigintFromString text) payload.toInt payload.limbs.length := by
  have notEmpty : text ≠ [] := by
    rintro rfl
    exact nonempty (congrArg Prod.snd hasSign).symm
  rw [bigintFromString, trim_eq_self noSpace, hasSign]
  simp only [notEmpty, nonempty, if_false, reads]
  exact computes_finishIn (toInt_mkBigintLimbs payload.limbs payload.sign) _

/-- Digits to a base behind its letters. -/
theorem computes_digits (baseSmall : base ≤ 16)
    (hasBase : readBase (48 :: letter :: digits) = (base, digits)) (nonempty : digits ≠ [])
    (areDigits : ∀ byte ∈ digits, ∃ digit < base, hexDigit byte = some digit)
    (isLetter : isSpace letter = false) :
    Computes (bigintFromString (48 :: letter :: digits)) (denoted base digits)
      (limbCount (denoted base digits)) := by
  obtain ⟨payload, reads, isValue⟩ :=
    bigintFromStringDigits_digits baseSmall hasBase nonempty areDigits false false
  have noSpace : ∀ c ∈ 48 :: letter :: digits, isSpace c = false := by
    refine forall_mem_cons.mpr ⟨rfl, forall_mem_cons.mpr ⟨isLetter, fun c isIn => ?_⟩⟩
    obtain ⟨digit, -, isDigit⟩ := areDigits c isIn
    by_contra space
    simp only [isSpace, Bool.or_eq_true, decide_eq_true_eq, Bool.not_eq_false] at space
    rcases space with ((rfl | rfl) | rfl) | rfl <;> cases isDigit
  have computes := computes_bigintFromString noSpace rfl (cons_ne_nil _ _) reads
  rwa [payload.length_limbs, ← payload.natAbs_toInt, isValue, if_neg Bool.false_ne_true,
    Int.natAbs_natCast] at computes

/-- The decimal text of a BigInt is read back. -/
theorem bigintFromString_print {value : Payload} (stored : value.limbs.length ≤ maxLimbs) :
    bigintFromString ((if value.sign then [45] else []) ++ print 10 value.magnitude) =
      .ok value := by
  have areDigits (c : UInt8) (isIn : c ∈ print 10 value.magnitude) := mem_print (by decide) isIn
  have plain : ∀ digit < 10, isSpace (digitByte digit) = false ∧ digitByte digit ≠ 45 ∧
      digitByte digit ≠ 43 := by decide
  obtain ⟨payload, reads, isValue⟩ :=
    bigintFromStringDigits_print value.magnitude value.sign false
  obtain rfl : payload = value := toInt_injective isValue
  have noSpace (c : UInt8) (isIn : c ∈ print 10 payload.magnitude) : isSpace c = false := by
    obtain ⟨digit, isDigit, rfl⟩ := areDigits c isIn
    exact (plain digit isDigit).1
  have hasSign : readSign ((if payload.sign then [45] else []) ++ print 10 payload.magnitude) =
      (payload.sign, print 10 payload.magnitude) := by
    cases payload.sign with
    | true => rfl
    | false =>
      simp only [Bool.false_eq_true, if_false, nil_append]
      unfold readSign
      split
      · next rest isText =>
        obtain ⟨digit, isDigit, same⟩ := areDigits 45 (by simp [isText])
        exact absurd same.symm (plain digit isDigit).2.1
      · next rest isText =>
        obtain ⟨digit, isDigit, same⟩ := areDigits 43 (by simp [isText])
        exact absurd same.symm (plain digit isDigit).2.2
      · rfl
  have computes := computes_bigintFromString (by
    cases payload.sign with
    | true => exact forall_mem_cons.mpr ⟨rfl, noSpace⟩
    | false => exact noSpace) hasSign (print_ne_nil _ _) reads
  obtain ⟨result, result_eq, same⟩ := computes.exists_of_le stored
  rw [result_eq, toInt_injective same]

end Reading

section Results

/-- The letters that name a base. -/
def baseLetters : List (UInt8 × Nat) :=
  [(120, 16), (88, 16), (111, 8), (79, 8), (98, 2), (66, 2)]

/-- The text of a BigInt to a base is its sign and the digits of its magnitude; the decimal text
is read back, and digits behind a base are read as the number they denote, if there is room. -/
structure Denotes (value : Payload) : Prop where
  printed : ∀ radix, 2 ≤ radix → radix ≤ 36 → bigintToString value radix =
    .ok ((if value.sign then [45] else []) ++ if value.magnitude = 0 then [48]
      else ((Nat.digits radix value.magnitude).map digitByte).reverse)
  readBack : value.limbs.length ≤ maxLimbs →
    ∃ text, bigintToString value 10 = .ok text ∧ bigintFromString text = .ok value
  read : ∀ letter base digits, (letter, base) ∈ baseLetters → digits ≠ [] →
    (∀ byte ∈ digits, ∃ digit < base, hexDigit byte = some digit) →
    Computes (bigintFromString (48 :: letter :: digits)) (denoted base digits)
      (limbCount (denoted base digits))

/-- A one and zeros behind it. -/
theorem denoted_zeros (count : Nat) : denoted 16 (49 :: replicate count 48) = 16 ^ count := by
  have zeros (value : Nat) : (replicate count (48 : UInt8)).foldl
      (fun value byte => value * 16 + (hexDigit byte).getD 0) value = value * 16 ^ count := by
    induction count generalizing value with
    | zero => simp
    | succ count ih =>
      rw [replicate_succ, foldl_cons, ih, pow_succ']
      change (value * 16 + 0) * _ = _
      ring
  change (replicate count (48 : UInt8)).foldl _ (0 * 16 + 1) = _
  rw [zeros]
  ring

/-- A one and enough zeros to the base 16 do not fit. -/
theorem exists_unread {count : Nat} (most : maxLimbs ≤ count) : ∃ digits : List UInt8,
    (∀ byte ∈ digits, ∃ digit < 16, hexDigit byte = some digit) ∧
      bigintFromString (48 :: 120 :: digits) = .error "oom" := by
  have areDigits : ∀ byte ∈ 49 :: replicate (8 * count) 48,
      ∃ digit < 16, hexDigit byte = some digit := by
    refine forall_mem_cons.mpr ⟨⟨1, by decide, rfl⟩, fun byte isIn => ⟨0, by decide, ?_⟩⟩
    rw [eq_of_mem_replicate isIn]
    rfl
  have computes := computes_digits (by decide) (rfl : readBase (48 :: 120 :: _) = _)
    (cons_ne_nil _ _) areDigits rfl
  rw [denoted_zeros, pow_mul, show 16 ^ 8 = 2 ^ 32 from rfl, limbCount,
    Nat.log_pow (by norm_num), Computes, if_neg (by omega)] at computes
  exact ⟨_, areDigits, computes⟩

end Results

end AntRuntime.BigInt
