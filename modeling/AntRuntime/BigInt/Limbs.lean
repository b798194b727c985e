import Mathlib.Data.List.GetD
import Mathlib.Tactic.Ring
import Mathlib.Tactic.Linarith
import AntRuntime.BigInt.Defs

/-!
# Values of limb arrays

The number denoted by a limb array, and what the linear passes over limb
arrays (normalisation, comparison, shifts, division by one limb) do to it.
-/

namespace AntRuntime.BigInt

open List

@[simp] theorem limbsToNat_nil : limbsToNat [] = 0 := rfl

@[simp] theorem limbsToNat_cons (limb : UInt32) (limbs : List UInt32) :
    limbsToNat (limb :: limbs) = limb.toNat + 2 ^ 32 * limbsToNat limbs := by
  simp [limbsToNat, Nat.ofDigits_cons]

theorem limbsToNat_append (low high : List UInt32) :
    limbsToNat (low ++ high) = limbsToNat low + (2 ^ 32) ^ low.length * limbsToNat high := by
  simp [limbsToNat, Nat.ofDigits_append]

section

variable (limbs : List UInt32)
include limbs

theorem limbsToNat_lt : limbsToNat limbs < (2 ^ 32) ^ limbs.length := by
  have bound : limbsToNat limbs < (2 ^ 32) ^ (limbs.map UInt32.toNat).length := by
    apply Nat.ofDigits_lt_base_pow_length (by norm_num)
    intro digit member
    obtain ⟨limb, _, rfl⟩ := mem_map.mp member
    exact limb.toNat_lt
  simpa using bound

/-- The limbs below and from a position split the value. -/
theorem limbsToNat_split (position : Nat) :
    limbsToNat limbs = limbsToNat (limbs.take position) +
      (2 ^ 32) ^ position * limbsToNat (limbs.drop position) := by
  conv_lhs => rw [← take_append_drop position limbs]
  rcases Nat.le_total position limbs.length with inside | outside
  · rw [limbsToNat_append, length_take, Nat.min_eq_left inside]
  · simp [drop_eq_nil_of_le outside]

theorem limbsToNat_take_lt (position : Nat) :
    limbsToNat (limbs.take position) < (2 ^ 32) ^ position := by
  apply (limbsToNat_lt (limbs.take position)).trans_le
  apply Nat.pow_le_pow_right (by norm_num)
  simp

theorem limbsToNat_drop (position : Nat) :
    limbsToNat (limbs.drop position) = limbsToNat limbs / (2 ^ 32) ^ position := by
  rw [limbsToNat_split limbs position, Nat.add_mul_div_left _ _ (by positivity),
    Nat.div_eq_of_lt (limbsToNat_take_lt limbs position), Nat.zero_add]

/-- Expose the limb at a position. -/
theorem drop_eq_getD_cons (inside : position < limbs.length) :
    limbs.drop position = limbs.getD position 0 :: limbs.drop (position + 1) := by
  rw [drop_eq_getElem_cons inside, getD_eq_getElem _ _ inside]

end

/-! ### Normalisation and comparison -/

section

variable (limbs : List UInt32)
include limbs

theorem normalizeLimbsCount_le (count : Nat) : normalizeLimbsCount limbs count ≤ count := by
  induction count with
  | zero => exact Nat.le_refl 0
  | succ count ih =>
    rw [normalizeLimbsCount]
    split
    · exact ih.trans (Nat.le_succ count)
    · exact Nat.le_refl _

theorem normalizeLimbsCount_pos {count : Nat} (positive : 0 < count) :
    0 < normalizeLimbsCount limbs count := by
  induction count with
  | zero => exact positive
  | succ count ih =>
    rw [normalizeLimbsCount]
    split
    · next more => exact ih (by omega)
    · exact Nat.succ_pos count

/-- The limb below the kept count is nonzero unless only one limb is kept. -/
theorem normalizeLimbsCount_top (count : Nat) (several : 1 < normalizeLimbsCount limbs count) :
    limbs.getD (normalizeLimbsCount limbs count - 1) 0 ≠ 0 := by
  induction count with
  | zero => simp [normalizeLimbsCount] at several
  | succ count ih =>
    rw [normalizeLimbsCount] at several ⊢
    split
    · next dropped =>
        rw [if_pos dropped] at several
        exact ih several
    · next kept =>
        rw [if_neg kept] at several
        intro zeroTop
        exact kept ⟨several, by simpa using zeroTop⟩

/-- Dropping leading zero limbs keeps the value. -/
theorem limbsToNat_take_normalizeLimbsCount {count : Nat} (inside : count ≤ limbs.length) :
    limbsToNat (limbs.take (normalizeLimbsCount limbs count)) = limbsToNat (limbs.take count) := by
  induction count with
  | zero => rfl
  | succ count ih =>
    rw [normalizeLimbsCount]
    split
    · next dropped =>
        rw [ih (by omega), take_succ_eq_append_getElem inside, limbsToNat_append]
        have zeroTop : limbs[count] = 0 := by
          rw [← getD_eq_getElem _ 0 inside]
          exact dropped.2
        simp [zeroTop]
    · rfl

theorem limbsToNat_normalizeLimbs : limbsToNat (normalizeLimbs limbs) = limbsToNat limbs := by
  rw [normalizeLimbs, limbsToNat_take_normalizeLimbsCount limbs (Nat.le_refl _), take_length]

theorem length_normalizeLimbs :
    (normalizeLimbs limbs).length = normalizeLimbsCount limbs limbs.length := by
  rw [normalizeLimbs, length_take]
  exact Nat.min_eq_left (normalizeLimbsCount_le limbs limbs.length)

end

theorem normalizeLimbs_ne_nil {limbs : List UInt32} (nonempty : limbs ≠ []) :
    normalizeLimbs limbs ≠ [] := by
  rw [← length_pos_iff, length_normalizeLimbs]
  exact normalizeLimbsCount_pos limbs (length_pos_iff.mpr nonempty)

/-- An array whose top limb is nonzero is in normal form. -/
theorem normalizeLimbs_eq_self {limbs : List UInt32}
    (top : 1 < limbs.length → limbs.getD (limbs.length - 1) 0 ≠ 0) :
    normalizeLimbs limbs = limbs := by
  have kept : normalizeLimbsCount limbs limbs.length = limbs.length := by
    cases length_eq : limbs.length with
    | zero => rfl
    | succ count =>
      rw [normalizeLimbsCount, if_neg]
      rintro ⟨several, zeroTop⟩
      rw [length_eq] at top
      exact top several (by simpa using zeroTop)
  rw [normalizeLimbs, kept, take_length]

theorem normalizeLimbs_idem (limbs : List UInt32) :
    normalizeLimbs (normalizeLimbs limbs) = normalizeLimbs limbs := by
  apply normalizeLimbs_eq_self
  rw [length_normalizeLimbs]
  intro several
  have top := normalizeLimbsCount_top limbs limbs.length several
  rw [normalizeLimbs]
  rw [getD_eq_getElem?_getD] at top ⊢
  rw [getElem?_take_of_lt (by omega)]
  exact top

/-- A normal form with several limbs has a nonzero top limb. -/
theorem top_ne_zero_of_normalized {limbs : List UInt32}
    (normalized : normalizeLimbs limbs = limbs) (several : 1 < limbs.length) :
    limbs.getD (limbs.length - 1) 0 ≠ 0 := by
  have kept : normalizeLimbsCount limbs limbs.length = limbs.length := by
    rw [← length_normalizeLimbs, normalized]
  have top := normalizeLimbsCount_top limbs limbs.length (by omega)
  rwa [kept] at top

/-- A nonzero top limb counts with its weight. -/
theorem pow_le_limbsToNat_take {limbs : List UInt32}
    (inside : position < limbs.length) (top : limbs.getD position 0 ≠ 0) :
    (2 ^ 32) ^ position ≤ limbsToNat (limbs.take (position + 1)) := by
  rw [getD_eq_getElem _ _ inside] at top
  have positive : 0 < (limbs[position]).toNat :=
    Nat.pos_of_ne_zero fun zero => top (UInt32.toNat_inj.mp zero)
  rw [take_succ_eq_append_getElem inside, limbsToNat_append,
    length_take, Nat.min_eq_left (Nat.le_of_lt inside)]
  simp only [limbsToNat_cons, limbsToNat_nil, Nat.mul_zero, Nat.add_zero]
  calc (2 ^ 32) ^ position ≤ (2 ^ 32) ^ position * (limbs[position]).toNat :=
        Nat.le_mul_of_pos_right _ positive
    _ ≤ _ := Nat.le_add_left _ _

/-- An array with a nonzero top limb above every limb of another is larger. -/
theorem limbsToNat_take_lt_of_longer {a : List UInt32} (b : List UInt32)
    (inside : alen ≤ a.length) (top : a.getD (alen - 1) 0 ≠ 0) (longer : blen < alen) :
    limbsToNat (b.take blen) < limbsToNat (a.take alen) := by
  obtain ⟨position, rfl⟩ : ∃ position, alen = position + 1 := ⟨alen - 1, by omega⟩
  calc limbsToNat (b.take blen) < (2 ^ 32) ^ blen := limbsToNat_take_lt b blen
    _ ≤ (2 ^ 32) ^ position := Nat.pow_le_pow_right (by norm_num) (Nat.le_of_lt_succ longer)
    _ ≤ _ := pow_le_limbsToNat_take inside top

/-- The comparison loop orders the values of equally long prefixes. -/
theorem cmpLimbsLoop_neg_iff (a b : List UInt32) {count : Nat}
    (insideA : count ≤ a.length) (insideB : count ≤ b.length) :
    cmpLimbsLoop a b count < 0 ↔ limbsToNat (a.take count) < limbsToNat (b.take count) := by
  induction count with
  | zero => simp [cmpLimbsLoop]
  | succ count ih =>
    have boundA := limbsToNat_take_lt a count
    have boundB := limbsToNat_take_lt b count
    have hypothesis := ih (by omega) (by omega)
    rw [cmpLimbsLoop, take_succ_eq_append_getElem insideA, take_succ_eq_append_getElem insideB,
      getD_eq_getElem _ _ insideA, getD_eq_getElem _ _ insideB,
      limbsToNat_append, limbsToNat_append, length_take,
      length_take, Nat.min_eq_left (by omega), Nat.min_eq_left (by omega)]
    simp only [limbsToNat_cons, limbsToNat_nil, Nat.mul_zero, Nat.add_zero]
    -- The top limbs decide unless they agree.
    rcases Nat.lt_trichotomy (a[count]).toNat (b[count]).toNat with
      less | equal | greater
    · have scaled := Nat.mul_le_mul_left ((2 ^ 32) ^ count) less
      rw [if_pos (ne_of_apply_ne UInt32.toNat less.ne), if_neg (UInt32.lt_asymm less)]
      rw [Nat.mul_succ] at scaled
      exact iff_of_true (by decide) (by omega)
    · rw [if_neg (by simpa using UInt32.toNat_inj.mp equal), equal]
      omega
    · have scaled := Nat.mul_le_mul_left ((2 ^ 32) ^ count) greater
      rw [if_pos (ne_of_apply_ne UInt32.toNat greater.ne'),
        if_pos (UInt32.lt_iff_toNat_lt.mpr greater)]
      rw [Nat.mul_succ] at scaled
      exact iff_of_false (by decide) (by omega)

/-- `bigint_cmp_abs_limbs` is negative exactly on smaller values. -/
theorem cmpAbsLimbs_neg_iff {a b : List UInt32} (nonemptyA : a ≠ []) (nonemptyB : b ≠ []) :
    cmpAbsLimbs a b < 0 ↔ limbsToNat a < limbsToNat b := by
  have valueA := limbsToNat_take_normalizeLimbsCount a (Nat.le_refl a.length)
  have valueB := limbsToNat_take_normalizeLimbsCount b (Nat.le_refl b.length)
  have insideA := normalizeLimbsCount_le a a.length
  have insideB := normalizeLimbsCount_le b b.length
  have positiveA := normalizeLimbsCount_pos a (length_pos_iff.mpr nonemptyA)
  have positiveB := normalizeLimbsCount_pos b (length_pos_iff.mpr nonemptyB)
  have topA := normalizeLimbsCount_top a a.length
  have topB := normalizeLimbsCount_top b b.length
  rw [take_length] at valueA valueB
  unfold cmpAbsLimbs
  generalize normalizeLimbsCount a a.length = alen at *
  generalize normalizeLimbsCount b b.length = blen at *
  rw [← valueA, ← valueB]
  by_cases sameLength : alen = blen
  · subst blen
    rw [if_neg (by simp)]
    exact cmpLimbsLoop_neg_iff a b insideA insideB
  · rw [if_pos sameLength]
    by_cases longer : blen < alen
    · rw [if_pos longer]
      have larger := limbsToNat_take_lt_of_longer b insideA (topA (by omega)) longer
      exact iff_of_false (by decide) larger.asymm
    · rw [if_neg longer]
      have larger := limbsToNat_take_lt_of_longer a insideB (topB (by omega))
        (show alen < blen by omega)
      exact iff_of_true (by decide) larger

end AntRuntime.BigInt
