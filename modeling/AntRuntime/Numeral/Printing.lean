import Mathlib.Algebra.Group.Nat.Defs

/-!
# Printing a number

The digits of a number are written from the last to the first, at least one of them.
Reading them from the first to the last gives the number back.
-/

namespace AntRuntime.Numeral

open List

variable {digitOf : UInt8 → Nat}

/-- The character of a digit. -/
def digitByte (digit : Nat) : UInt8 :=
  UInt8.ofNat (if digit < 10 then 48 + digit else 87 + digit)

/-- Write the digits of a number in front of those that are there. -/
def printLoop (base : Nat) : Nat → Nat → List UInt8 → List UInt8
  | 0, _, digits => digits
  | fuel + 1, value, digits =>
    if value / base = 0 then digitByte (value % base) :: digits
    else printLoop base fuel (value / base) (digitByte (value % base) :: digits)

/-- The digits of a number. -/
def print (base value : Nat) : List UInt8 :=
  printLoop base (value + 1) value []

variable {digits : List UInt8}

/-- The digits that are there stay at the end. -/
theorem printLoop_append (base fuel value : Nat) (digits : List UInt8) :
    printLoop base fuel value digits = printLoop base fuel value [] ++ digits := by
  induction fuel generalizing value digits with
  | zero => rfl
  | succ fuel ih =>
    rw [printLoop, printLoop]
    by_cases isLast : value / base = 0
    · rw [if_pos isLast, if_pos isLast]
      rfl
    · rw [if_neg isLast, if_neg isLast, ih, ih _ [_], append_assoc]
      rfl

theorem print_ne_nil (base value : Nat) : print base value ≠ [] := by
  rw [print, printLoop]
  split
  · exact cons_ne_nil _ _
  · rw [printLoop_append]
    exact append_ne_nil_of_right_ne_nil _ (cons_ne_nil _ _)

theorem print_of_small (small : value / base = 0) :
    print base value = [digitByte (value % base)] := by
  rw [print, printLoop, if_pos small]

section Several

variable (several : 1 < base)
include several

theorem div_lt_of_more (more : value / base ≠ 0) : value / base < value := by
  refine Nat.div_lt_self (Nat.pos_of_ne_zero fun isZero => more ?_) several
  rw [isZero, Nat.zero_div]

/-- Enough fuel is as good as any other. -/
theorem printLoop_fuel (enough : value < fuel) (otherEnough : value < other) (digits : List UInt8) :
    printLoop base fuel value digits = printLoop base other value digits := by
  induction fuel generalizing value other digits with
  | zero => exact absurd enough (Nat.not_lt_zero value)
  | succ fuel ih =>
    obtain ⟨less, rfl⟩ : ∃ less, other = less + 1 := ⟨other - 1, by omega⟩
    rw [printLoop, printLoop]
    by_cases isLast : value / base = 0
    · rw [if_pos isLast, if_pos isLast]
    · have smaller := div_lt_of_more several isLast
      rw [if_neg isLast, if_neg isLast]
      exact ih (by omega) (by omega) _

/-- All digits but the last are those of the quotient. -/
theorem print_eq_append (more : value / base ≠ 0) :
    print base value = print base (value / base) ++ [digitByte (value % base)] := by
  rw [print, printLoop, if_neg more, printLoop_append, print,
    printLoop_fuel several (div_lt_of_more several more) (Nat.lt_succ_self _)]

/-- A number is its only digit, or a quotient and a last digit. -/
theorem print_induct {motive : Nat → Prop} (single : ∀ value, value / base = 0 → motive value)
    (append : ∀ value, value / base ≠ 0 → motive (value / base) → motive value) (value : Nat) :
    motive value := by
  induction value using Nat.strongRecOn with
  | _ value ih =>
    by_cases small : value / base = 0
    · exact single value small
    · exact append value small (ih _ (div_lt_of_more several small))

/-- Reading the digits gives the number back. -/
theorem foldl_print (reads : ∀ digit < base, digitOf (digitByte digit) = digit) (value : Nat) :
    (print base value).foldl (fun value byte => value * base + digitOf byte) 0 = value := by
  have last (value : Nat) := reads (value % base) (Nat.mod_lt value (Nat.zero_lt_of_lt several))
  induction value using print_induct several with
  | single value small =>
    rw [print_of_small small, foldl_cons, last, foldl_nil, ← small, Nat.div_add_mod']
  | append value more ih =>
    rw [print_eq_append several more, foldl_append, ih, foldl_cons, last, foldl_nil,
      Nat.div_add_mod']

/-- Every character is that of a digit. -/
theorem mem_print (isIn : byte ∈ print base value) :
    ∃ digit < base, byte = digitByte digit := by
  have last (value : Nat) : ∃ digit < base, digitByte (value % base) = digitByte digit :=
    ⟨value % base, Nat.mod_lt value (Nat.zero_lt_of_lt several), rfl⟩
  induction value using print_induct several with
  | single value small =>
    rw [print_of_small small, mem_singleton] at isIn
    exact isIn ▸ last value
  | append value more ih =>
    rw [print_eq_append several more, mem_append, mem_singleton] at isIn
    exact isIn.elim ih fun isLast => isLast ▸ last value

/-- The first digits are those of a quotient. -/
theorem take_print {count : Nat} (positive : 0 < count) (value : Nat) :
    (print base value).take count =
      print base (value / base ^ ((print base value).length - count)) := by
  by_cases whole : (print base value).length ≤ count
  · rw [Nat.sub_eq_zero_of_le whole, Nat.pow_zero, Nat.div_one]
    exact take_of_length_le whole
  induction value using print_induct several with
  | single value small =>
    rw [print_of_small small] at whole
    exact absurd positive whole
  | append value more ih =>
    have printEq := print_eq_append several more
    have lengthEq : (print base value).length = (print base (value / base)).length + 1 := by
      rw [printEq, length_append, length_singleton]
    have shift : (print base value).length - count =
        (print base (value / base)).length - count + 1 := by omega
    rw [shift, Nat.pow_succ, Nat.mul_comm, ← Nat.div_div_eq_div_mul, printEq,
      take_append_of_le_length (by omega)]
    by_cases last : (print base (value / base)).length ≤ count
    · rw [Nat.sub_eq_zero_of_le last, Nat.pow_zero, Nat.div_one]
      exact take_of_length_le last
    · exact ih last

theorem length_print_le_iff {count : Nat} (positive : 0 < count) (value : Nat) :
    (print base value).length ≤ count ↔ value < base ^ count := by
  induction value using print_induct several generalizing count with
  | single value small =>
    have below := (Nat.div_eq_zero_iff.mp small).resolve_left (Nat.ne_zero_of_lt several)
    rw [print_of_small small]
    exact iff_of_true positive (Nat.lt_of_lt_of_le below (Nat.le_self_pow (by omega) base))
  | append value more ih =>
    have nonempty := length_pos_iff.mpr (print_ne_nil base (value / base))
    obtain ⟨less, rfl⟩ : ∃ less, count = less + 1 := ⟨count - 1, by omega⟩
    rw [print_eq_append several more, length_append, length_singleton,
      Nat.add_le_add_iff_right, Nat.pow_succ, ← Nat.div_lt_iff_lt_mul (by omega)]
    by_cases isZero : less = 0
    · subst isZero
      exact iff_of_false (by omega) (fun below => more (Nat.lt_one_iff.mp below))
    · exact ih (by omega)

end Several

end AntRuntime.Numeral
