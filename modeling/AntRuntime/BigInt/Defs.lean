import Mathlib.Data.Nat.Digits.Defs

/-!
# BigInt payloads and their division

A BigInt payload is a sign together with a little-endian array of 32-bit
limbs.  This module translates the construction, comparison and division
routines of `modules/bigint.c`.  Limbs and carries keep the widths of the
source, so every intermediate value wraps exactly where the C expression does.

Loops over limb arrays become recursions over lists, least significant limb
first.  Allocation always succeeds here; the only error left is division by
zero.
-/

namespace AntRuntime.BigInt

/-- The natural number denoted by an array of limbs. -/
def limbsToNat (limbs : List UInt32) : Nat :=
  Nat.ofDigits (2 ^ 32) (limbs.map UInt32.toNat)

/-- Number of limbs kept by `bigint_normalize_limbs` out of the first
`count`: trailing zero limbs are dropped as long as one limb remains. -/
def normalizeLimbsCount (limbs : List UInt32) : Nat → Nat
  | 0 => 0
  | count + 1 =>
    if count + 1 > 1 ∧ limbs.getD count 0 = 0 then
      normalizeLimbsCount limbs count
    else count + 1

/-- `bigint_normalize_limbs` applied to a whole array. -/
def normalizeLimbs (limbs : List UInt32) : List UInt32 :=
  limbs.take (normalizeLimbsCount limbs limbs.length)

/-- A well-formed payload.  The limb array is never empty, carries no leading
zero limb beyond the first, and zero is never negative. -/
structure Payload where
  /-- `sign == 1` in the source. -/
  sign : Bool
  /-- The limbs, least significant first. -/
  limbs : List UInt32
  /-- `limb_count` is positive. -/
  nonempty : limbs ≠ []
  /-- The array is its own normal form. -/
  normalized : normalizeLimbs limbs = limbs
  /-- `bigint_finish_payload` clears the sign of zero. -/
  zero_nonneg : limbs = [0] → sign = false

/-- The magnitude of a payload. -/
def Payload.magnitude (value : Payload) : Nat :=
  limbsToNat value.limbs

/-- The integer denoted by a payload. -/
def Payload.toInt (value : Payload) : Int :=
  if value.sign then -(value.magnitude : Int) else value.magnitude

/-- `limbs_is_zero`. -/
def limbsIsZero (limbs : List UInt32) : Bool :=
  limbs.length == 1 && limbs.getD 0 0 == 0

/-- The comparison loop of `bigint_cmp_abs_limbs`, from limb `count - 1`
downwards. -/
def cmpLimbsLoop (a b : List UInt32) : Nat → Int
  | 0 => 0
  | i + 1 =>
    if a.getD i 0 ≠ b.getD i 0 then
      if a.getD i 0 > b.getD i 0 then 1 else -1
    else cmpLimbsLoop a b i

/-- `bigint_cmp_abs_limbs`. -/
def cmpAbsLimbs (a b : List UInt32) : Int :=
  let alen := normalizeLimbsCount a a.length
  let blen := normalizeLimbsCount b b.length
  if alen ≠ blen then
    if alen > blen then 1 else -1
  else cmpLimbsLoop a b alen

/-- Leading zero count of a nonzero limb (`clz32_nonzero`). -/
def clz32Nonzero (limb : UInt32) : UInt32 :=
  UInt32.ofNat (31 - Nat.log2 limb.toNat)

/-- The loop dividing by a single limb, most significant limb first.  Returns
the quotient limbs and the remainder. -/
def divSmallLoop (divisor : UInt32) : List UInt32 → List UInt32 × UInt64
  | [] => ([], 0)
  | limb :: limbs =>
    let (quotient, rem) := divSmallLoop divisor limbs
    let cur := (rem <<< 32) ||| limb.toUInt64
    ((cur / divisor.toUInt64).toUInt32 :: quotient, cur % divisor.toUInt64)

/-- The normalising shift of the operands.  Returns the shifted limbs and the
carry out of the most significant one. -/
def shiftLeftLoop (shift : UInt32) (carry : UInt32) :
    List UInt32 → List UInt32 × UInt32
  | [] => ([], carry)
  | limb :: limbs =>
    let cur := (limb.toUInt64 <<< shift.toUInt64) ||| carry.toUInt64
    let (shifted, out) := shiftLeftLoop shift (cur >>> 32).toUInt32 limbs
    (cur.toUInt32 :: shifted, out)

/-- The final shift of the remainder, most significant limb first.  Returns
the shifted limbs and the bits passed down from the lowest limb. -/
def shiftRightLoop (shift : UInt32) : List UInt32 → List UInt32 × UInt32
  | [] => ([], 0)
  | cur :: limbs =>
    let (shifted, carry) := shiftRightLoop shift limbs
    (((cur >>> shift) ||| (carry <<< (32 - shift))) :: shifted, cur &&& ((1 <<< shift) - 1))

/-- The `while` loop correcting the trial digit.  `vTop` and `vNext` are the
two leading divisor limbs and `uNext` is the third limb of the window.  The
loop lowers `qhat` on every round, so it recurs on `qhat`; at zero the test
fails because the product is zero. -/
def correctTrial (vTop vNext uNext : UInt32) : Nat → UInt64 → UInt64
  | 0, _ => 0
  | qhat + 1, rhat =>
    if UInt64.ofNat (qhat + 1) * vNext.toUInt64 > (rhat <<< 32) ||| uNext.toUInt64 then
      let rhat := rhat + vTop.toUInt64
      if rhat ≥ 0x100000000 then UInt64.ofNat qhat
      else correctTrial vTop vNext uNext qhat rhat
    else UInt64.ofNat (qhat + 1)

/-- The trial quotient digit of one window: the two-limb estimate, its clamp
and its correction. -/
def trialDigit (vTop vNext uTop uMid uNext : UInt32) : UInt64 :=
  let numerator := (uTop.toUInt64 <<< 32) ||| uMid.toUInt64
  let qhat := numerator / vTop.toUInt64
  let rhat := numerator % vTop.toUInt64
  if qhat ≥ 0x100000000 then
    let clamped : UInt64 := 0x100000000 - 1
    correctTrial vTop vNext uNext clamped.toNat (numerator - clamped * vTop.toUInt64)
  else correctTrial vTop vNext uNext qhat.toNat rhat

/-- The multiply-and-subtract loop over one window.  Returns the new window
limbs and the carry `k`. -/
def mulSubLoop (qhat : UInt64) (k : UInt64) :
    List UInt32 → List UInt32 → List UInt32 × UInt64
  | u :: us, v :: vs =>
    let p := qhat * v.toUInt64 + k
    let plow := p.toUInt32
    let (limb, k) :=
      if u < plow then
        ((u.toUInt64 + 0x100000000 - plow.toUInt64).toUInt32, (p >>> 32) + 1)
      else (u - plow, p >>> 32)
    let (limbs, k) := mulSubLoop qhat k us vs
    (limb :: limbs, k)
  | us, _ => (us, k)

/-- The add-back loop.  Returns the new window limbs and the carry. -/
def addBackLoop (carry : UInt64) :
    List UInt32 → List UInt32 → List UInt32 × UInt64
  | u :: us, v :: vs =>
    let sum := u.toUInt64 + v.toUInt64 + carry
    let (limbs, carry) := addBackLoop (sum >>> 32) us vs
    (sum.toUInt32 :: limbs, carry)
  | us, _ => (us, carry)

/-- The part of a round after the trial digit: subtract its product from the
window `low ++ [top]`, and add the divisor back when that underflows.  Returns
the quotient digit and the new window. -/
def subtractTrial (vn low : List UInt32) (top : UInt32) (qhat : UInt64) :
    UInt32 × List UInt32 × UInt32 :=
  let (limbs, k) := mulSubLoop qhat 0 low vn
  let borrow := top.toUInt64 < k
  let newTop := (top.toUInt64 - k).toUInt32
  if borrow then
    let (restored, carry) := addBackLoop 0 limbs vn
    ((qhat - 1).toUInt32, restored, (newTop.toUInt64 + carry).toUInt32)
  else (qhat.toUInt32, limbs, newTop)

/-- One round of the main loop on a window of `den_count + 1` limbs. -/
def divideWindow (vn low : List UInt32) (top : UInt32) : UInt32 × List UInt32 × UInt32 :=
  let count := vn.length
  subtractTrial vn low top (trialDigit (vn.getD (count - 1) 0) (vn.getD (count - 2) 0)
      top (low.getD (count - 1) 0) (low.getD (count - 2) 0))

/-- The main loop for the digits below position `j`.  `un` is the shifted
dividend being reduced in place; the result is the quotient digits below `j`,
least significant first, and the reduced array. -/
def divideLoop (vn : List UInt32) :
    Nat → List UInt32 → List UInt32 × List UInt32
  | 0, un => ([], un)
  | j + 1, un =>
    let count := vn.length
    let (digit, low, top) := divideWindow vn ((un.drop j).take count) (un.getD (j + count) 0)
    let (digits, un) := divideLoop vn j (un.take j ++ low ++ top :: un.drop (j + count + 1))
    (digits ++ [digit], un)

/-- The shift that moves the leading bit of the divisor to the top of its
limb. -/
def divisorShift (den : List UInt32) : UInt32 :=
  clz32Nonzero (den.getD (den.length - 1) 0)

/-- The shifted divisor `vn`. -/
def shiftedDivisor (shift : UInt32) (den : List UInt32) : List UInt32 :=
  if shift = 0 then den else (shiftLeftLoop shift 0 den).1

/-- The shifted dividend `un`, one limb longer than the dividend. -/
def shiftedDividend (shift : UInt32) (num : List UInt32) : List UInt32 :=
  if shift = 0 then num ++ [0]
  else (shiftLeftLoop shift 0 num).1 ++ [(shiftLeftLoop shift 0 num).2]

/-- The remainder `r` read back from the reduced array. -/
def unshiftedRemainder (shift : UInt32) (rest : List UInt32) : List UInt32 :=
  if shift = 0 then rest else (shiftRightLoop shift rest).1

/-- `bigint_divmod_abs_limbs`: quotient and remainder limbs, or `none` for a
zero divisor.  Callers that pass a null pointer ignore one component. -/
def divmodAbsLimbs (num den : List UInt32) : Option (List UInt32 × List UInt32) :=
  if limbsIsZero den then none
  else if cmpAbsLimbs num den < 0 then
    some ([0], normalizeLimbs num)
  else if den.length = 1 then
    let (quotient, rem) := divSmallLoop (den.getD 0 0) num
    some (normalizeLimbs quotient, [rem.toUInt32])
  else
    let m := num.length - den.length
    let shift := divisorShift den
    let (q, un) := divideLoop (shiftedDivisor shift den) (m + 1) (shiftedDividend shift num)
    let r := unshiftedRemainder shift (un.take den.length)
    some (normalizeLimbs q, normalizeLimbs r)

end AntRuntime.BigInt
