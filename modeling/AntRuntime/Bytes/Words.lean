import Mathlib.Algebra.Order.Group.Nat
import Mathlib.Algebra.Order.Ring.Nat
import Mathlib.Tactic.Ring

/-!
# Texts and numbers as bytes

The bytes of an ASCII text, the big-endian bytes of a number at a fixed width, with reading
them back, and little-endian numbers.
-/

namespace AntRuntime.Bytes

/-- The bytes of a text of ASCII characters. -/
def ofAscii (text : String) : List UInt8 :=
  text.toList.map fun c => UInt8.ofNat c.toNat

/-- The low `width` bytes of a number, the most significant one first. -/
def bigEndian : Nat → Nat → List UInt8
  | 0, _ => []
  | width + 1, value => bigEndian width (value >>> 8) ++ [UInt8.ofNat (value &&& 0xff)]

/-- The number that bytes spell, the most significant one first. -/
def ofBigEndian (bytes : List UInt8) : Nat :=
  bytes.foldl (fun value byte => value * 256 + byte.toNat) 0

@[simp]
theorem length_bigEndian (width value : Nat) : (bigEndian width value).length = width := by
  induction width generalizing value with
  | zero => rfl
  | succ width ih => simp [bigEndian, ih]

theorem ofBigEndian_append_singleton (bytes : List UInt8) (byte : UInt8) :
    ofBigEndian (bytes ++ [byte]) = ofBigEndian bytes * 256 + byte.toNat := by
  simp [ofBigEndian]

theorem toNat_ofNat_and (value : Nat) : (UInt8.ofNat (value &&& 0xff)).toNat = value % 256 := by
  rw [show value &&& 0xff = value % 256 from Nat.and_two_pow_sub_one_eq_mod value 8]
  simp

/-- Bytes that are wide enough keep the number. -/
theorem ofBigEndian_bigEndian (fits : value < 256 ^ width) :
    ofBigEndian (bigEndian width value) = value := by
  induction width generalizing value with
  | zero =>
    rw [pow_zero, Nat.lt_one_iff] at fits
    rw [fits]
    rfl
  | succ width ih =>
    have shifted : value >>> 8 = value / 256 := Nat.shiftRight_eq_div_pow value 8
    have smaller : value >>> 8 < 256 ^ width := by
      rw [shifted, Nat.div_lt_iff_lt_mul (by decide)]
      rwa [pow_succ] at fits
    rw [bigEndian, ofBigEndian_append_singleton, ih smaller, toNat_ofNat_and]
    omega

/-- The low `width` bytes of a number, the least significant one first. -/
def littleEndian : Nat → Nat → List UInt8
  | 0, _ => []
  | width + 1, value => UInt8.ofNat (value &&& 0xff) :: littleEndian width (value / 256)

/-- The number that bytes spell, the least significant one first. -/
def ofLittleEndian : List UInt8 → Nat
  | [] => 0
  | byte :: bytes => byte.toNat + 256 * ofLittleEndian bytes

/-- Bytes that are wide enough keep the number in this order too. -/
theorem ofLittleEndian_littleEndian (fits : value < 256 ^ width) :
    ofLittleEndian (littleEndian width value) = value := by
  induction width generalizing value with
  | zero => exact (Nat.lt_one_iff.mp fits).symm
  | succ width ih =>
    have smaller : value / 256 < 256 ^ width := by
      rwa [Nat.div_lt_iff_lt_mul (by decide), ← pow_succ]
    rw [littleEndian, ofLittleEndian, ih smaller, toNat_ofNat_and]
    omega

end AntRuntime.Bytes
