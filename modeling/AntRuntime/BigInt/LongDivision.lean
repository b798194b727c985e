import AntRuntime.BigInt.TrialDigit

/-!
# The long division loop

The main loop of `bigint_divmod_abs_limbs` for a divisor of at least two
limbs.  A round whose window does not overflow the trial test emits the true
digit and leaves the true remainder; a round whose window does overflow emits
a digit one too small.  Hence the loop computes the quotient exactly when no
window overflows.
-/

namespace AntRuntime.BigInt

open List

/-- The divisor and the window of one round, split at their leading limbs. -/
def windowLimbs (vn low : List UInt32) (top : UInt32)
    (vTop_pos : 0 < (vn.getD (vn.length - 1) 0).toNat) : LeadingLimbs where
  weight := (2 ^ 32) ^ (vn.length - 2)
  vTop := vn.getD (vn.length - 1) 0
  vNext := vn.getD (vn.length - 2) 0
  vLow := limbsToNat (vn.take (vn.length - 2))
  uTop := top
  uMid := low.getD (vn.length - 1) 0
  uNext := low.getD (vn.length - 2) 0
  uLow := limbsToNat (low.take (vn.length - 2))
  vLow_lt := limbsToNat_take_lt vn _
  uLow_lt := limbsToNat_take_lt low _
  vTop_pos := vTop_pos

/-- An array of at least two limbs, read from its two leading limbs. -/
theorem limbsToNat_eq_leading {limbs : List UInt32} (several : 2 ≤ limbs.length) :
    limbsToNat limbs =
      ((limbs.getD (limbs.length - 1) 0).toNat * 2 ^ 32 +
          (limbs.getD (limbs.length - 2) 0).toNat) *
        (2 ^ 32) ^ (limbs.length - 2) +
      limbsToNat (limbs.take (limbs.length - 2)) := by
  rw [limbsToNat_split limbs (limbs.length - 2),
    drop_eq_getD_cons limbs (by omega), drop_eq_getD_cons limbs (by omega),
    drop_eq_nil_of_le (by omega)]
  rw [show limbs.length - 2 + 1 = limbs.length - 1 by omega]
  simp only [limbsToNat_cons, limbsToNat_nil]
  ring

/-- The number in the limbs of a window and the limb above them. -/
def windowValue (vn low : List UInt32) (top : UInt32) : Nat :=
  limbsToNat low + (2 ^ 32) ^ vn.length * top.toNat

section Subtract

variable {vn low : List UInt32} (top : UInt32) {qhat : UInt64}
  (qhat_lt : qhat.toNat < 2 ^ 32) (sameLength : low.length = vn.length)

theorem length_subtractTrial : (subtractTrial vn low top qhat).2.1.length = low.length := by
  simp only [subtractTrial]
  split
  · exact (length_addBackLoop _ _ _).trans (length_mulSubLoop _ _ _ _)
  · exact length_mulSubLoop _ _ _ _

include qhat_lt sameLength in
/-- A trial digit that fits the window is kept and one above the true digit is lowered; what is
left is the window without the product of that digit. -/
theorem subtractTrial_value
    (near : qhat.toNat * limbsToNat vn ≤ windowValue vn low top + limbsToNat vn) :
    (qhat.toNat * limbsToNat vn ≤ windowValue vn low top →
        (subtractTrial vn low top qhat).1.toNat = qhat.toNat) ∧
      (¬qhat.toNat * limbsToNat vn ≤ windowValue vn low top →
        (subtractTrial vn low top qhat).1.toNat = qhat.toNat - 1) ∧
      windowValue vn (subtractTrial vn low top qhat).2.1 (subtractTrial vn low top qhat).2.2 +
          (subtractTrial vn low top qhat).1.toNat * limbsToNat vn =
        windowValue vn low top := by
  obtain ⟨value, k_le⟩ := mulSubLoop_value (k := 0) qhat_lt (Nat.zero_le _) sameLength
  have limbs_length := length_mulSubLoop qhat 0 low vn
  have limbs_lt := limbsToNat_lt (mulSubLoop qhat 0 low vn).1
  have divisor_lt := limbsToNat_lt vn
  have top_lt := top.toNat_lt
  simp only [subtractTrial, windowValue] at near ⊢
  generalize (mulSubLoop qhat 0 low vn).1 = limbs at value limbs_lt limbs_length ⊢
  generalize (mulSubLoop qhat 0 low vn).2 = k at value k_le ⊢
  obtain ⟨restored_value, carry_le⟩ :=
    @addBackLoop_value 0 _ _ (Nat.zero_le 1) (limbs_length.trans sameLength)
  have restored_lt := limbsToNat_lt (addBackLoop 0 limbs vn).1
  rw [length_addBackLoop, limbs_length, sameLength] at restored_lt
  rw [limbs_length, sameLength] at limbs_lt
  generalize (addBackLoop 0 limbs vn).2 = carry at restored_value carry_le ⊢
  generalize ((2 : Nat) ^ 32) ^ vn.length = base at *
  rw [UInt64.toNat_zero] at value restored_value
  by_cases fits : qhat.toNat * limbsToNat vn ≤ limbsToNat low + base * top.toNat
  · have k_le : k.toNat ≤ top.toNat := by
      by_contra larger
      have scaled := Nat.mul_le_mul_left base (show top.toNat + 1 ≤ k.toNat by omega)
      rw [Nat.mul_add] at scaled
      omega
    have noBorrow : ¬top.toUInt64 < k := Nat.not_lt.mpr k_le
    have top_value : (top.toUInt64 - k).toUInt32.toNat = top.toNat - k.toNat := by
      rw [UInt64.toNat_toUInt32, UInt64.toNat_sub, UInt32.toNat_toUInt64]
      omega
    have split : base * top.toNat = base * (top.toNat - k.toNat) + base * k.toNat := by
      rw [← Nat.mul_add, Nat.sub_add_cancel k_le]
    have digit_value : qhat.toUInt32.toNat = qhat.toNat := Nat.mod_eq_of_lt qhat_lt
    rw [if_neg noBorrow]
    refine ⟨fun _ => digit_value, fun exceeds => absurd fits exceeds, ?_⟩
    simp only [digit_value, top_value]
    omega
  · have borrowed : top.toNat < k.toNat := by
      by_contra reaches
      have scaled := Nat.mul_le_mul_left base (show k.toNat ≤ top.toNat by omega)
      omega
    have qhat_pos : 0 < qhat.toNat := Nat.pos_of_ne_zero fun zero => fits (by simp [zero])
    have lowered : qhat.toNat * limbsToNat vn =
        (qhat.toNat - 1) * limbsToNat vn + limbsToNat vn := by
      rw [← Nat.succ_mul, Nat.succ_eq_add_one, Nat.sub_add_cancel qhat_pos]
    -- The add-back carry cancels the borrow, so the top limb returns to zero.
    have scaled_top : base * k.toNat = base * (top.toNat + (k.toNat - top.toNat)) := by
      rw [Nat.add_sub_cancel' borrowed.le]
    rw [Nat.mul_add] at scaled_top
    have carry_eq : k.toNat - top.toNat = carry.toNat := by
      have upper : base * (k.toNat - top.toNat) < base * (carry.toNat + 1) := by
        rw [Nat.mul_add]
        omega
      have upper := Nat.lt_of_mul_lt_mul_left upper
      omega
    have borrow : top.toUInt64 < k := borrowed
    have top_value : ((top.toUInt64 - k).toUInt32.toUInt64 + carry).toUInt32.toNat = 0 := by
      rw [UInt64.toNat_toUInt32, UInt64.toNat_add, UInt32.toNat_toUInt64,
        UInt64.toNat_toUInt32, UInt64.toNat_sub, UInt32.toNat_toUInt64]
      omega
    have digit_value : (qhat - 1).toUInt32.toNat = qhat.toNat - 1 := by
      rw [UInt64.toNat_toUInt32, UInt64.toNat_sub]
      have one_value : UInt64.toNat 1 = 1 := rfl
      omega
    rw [carry_eq] at scaled_top
    rw [if_pos borrow]
    refine ⟨fun reaches => absurd reaches fits, fun _ => digit_value, ?_⟩
    simp only [digit_value, top_value]
    omega

end Subtract

section Round

variable {vn low : List UInt32} (top : UInt32)
  (several : 2 ≤ vn.length) (sameLength : low.length = vn.length)
  (vTop_pos : 0 < (vn.getD (vn.length - 1) 0).toNat)

include several in
theorem divisor_windowLimbs (low : List UInt32) :
    (windowLimbs vn low top vTop_pos).divisor = limbsToNat vn := by
  rw [limbsToNat_eq_leading several]
  rfl

include several sameLength in
theorem window_windowLimbs :
    (windowLimbs vn low top vTop_pos).window = windowValue vn low top := by
  rw [windowValue, limbsToNat_eq_leading (sameLength ▸ several), sameLength]
  have weight : ((2 : Nat) ^ 32) ^ vn.length = (2 ^ 32) ^ (vn.length - 2) * (2 ^ 32 * 2 ^ 32) := by
    rw [← pow_two, ← pow_add, Nat.sub_add_cancel several]
  rw [weight]
  simp only [windowLimbs, LeadingLimbs.window]
  ring

include several sameLength in
/-- The digit that one round tries. -/
theorem divideWindow_eq (window_lt : windowValue vn low top < limbsToNat vn * 2 ^ 32) :
    ∃ qhat, divideWindow vn low top = subtractTrial vn low top qhat ∧ qhat.toNat < 2 ^ 32 ∧
      ((windowLimbs vn low top vTop_pos).TrialOverflow →
        qhat.toNat + 1 = windowValue vn low top / limbsToNat vn) ∧
      (¬(windowLimbs vn low top vTop_pos).TrialOverflow →
        windowValue vn low top / limbsToNat vn ≤ qhat.toNat ∧
          qhat.toNat ≤ windowValue vn low top / limbsToNat vn + 1) := by
  have bounds := (windowLimbs vn low top vTop_pos).trialDigit_bounds
  rw [divisor_windowLimbs top several vTop_pos low,
    window_windowLimbs top several sameLength vTop_pos] at bounds
  exact ⟨_, rfl, bounds window_lt⟩

include several sameLength in
/-- One round on a window that does not overflow divides it exactly. -/
theorem divideWindow_exact (window_lt : windowValue vn low top < limbsToNat vn * 2 ^ 32)
    (noOverflow : ¬(windowLimbs vn low top vTop_pos).TrialOverflow) :
    (divideWindow vn low top).1.toNat = windowValue vn low top / limbsToNat vn ∧
      windowValue vn (divideWindow vn low top).2.1 (divideWindow vn low top).2.2 =
        windowValue vn low top % limbsToNat vn := by
  obtain ⟨qhat, tried, qhat_lt, -, near⟩ :=
    divideWindow_eq top several sameLength vTop_pos window_lt
  obtain ⟨near_low, near_high⟩ := near noOverflow
  have divisor_pos : 0 < limbsToNat vn := by omega
  have divided := Nat.div_add_mod (windowValue vn low top) (limbsToNat vn)
  have rest_lt := Nat.mod_lt (windowValue vn low top) divisor_pos
  rw [Nat.mul_comm] at divided
  have product := Nat.mul_le_mul_right (limbsToNat vn) near_high
  rw [Nat.add_mul, Nat.one_mul] at product
  obtain ⟨kept, lowered, rest_value⟩ := subtractTrial_value top qhat_lt sameLength (by omega)
  have digit_eq : (subtractTrial vn low top qhat).1.toNat =
      windowValue vn low top / limbsToNat vn := by
    rw [← Nat.le_div_iff_mul_le divisor_pos] at kept lowered
    by_cases fits : qhat.toNat ≤ windowValue vn low top / limbsToNat vn
    · exact (kept fits).trans (Nat.le_antisymm fits near_low)
    · rw [lowered fits, Nat.le_antisymm near_high (Nat.lt_of_not_le fits), Nat.add_sub_cancel]
  rw [tried]
  rw [digit_eq] at rest_value
  exact ⟨digit_eq, by omega⟩

include several sameLength in
/-- One round on an overflowing window emits a digit that is one too small. -/
theorem divideWindow_overflow (window_lt : windowValue vn low top < limbsToNat vn * 2 ^ 32)
    (overflow : (windowLimbs vn low top vTop_pos).TrialOverflow) :
    (divideWindow vn low top).1.toNat + 1 = windowValue vn low top / limbsToNat vn := by
  obtain ⟨qhat, tried, qhat_lt, below, -⟩ :=
    divideWindow_eq top several sameLength vTop_pos window_lt
  have digit_eq := below overflow
  have fits := Nat.div_mul_le_self (windowValue vn low top) (limbsToNat vn)
  rw [← digit_eq, Nat.add_mul] at fits
  rw [tried, (subtractTrial_value top qhat_lt sameLength (by omega)).1 (by omega)]
  exact digit_eq

end Round

/-- `LeadingLimbs.TrialOverflow` read off the numbers: `window` has one limb
more than `divisor`, which has `count` limbs. -/
def WindowOverflows (count window divisor : Nat) : Prop :=
  window / (2 ^ 32) ^ count = divisor / (2 ^ 32) ^ (count - 1) ∧
    2 ^ 32 ≤ window / (2 ^ 32) ^ (count - 1) % 2 ^ 32 + divisor / (2 ^ 32) ^ (count - 1) ∧
    (window / (2 ^ 32) ^ (count - 1) % 2 ^ 32 +
          divisor / (2 ^ 32) ^ (count - 1) - 2 ^ 32) * 2 ^ 32 +
        window / (2 ^ 32) ^ (count - 2) % 2 ^ 32 <
      (2 ^ 32 - 1) * (divisor / (2 ^ 32) ^ (count - 2) % 2 ^ 32) ∧
    window / divisor = 2 ^ 32 - 1

instance (count window divisor : Nat) :
    Decidable (WindowOverflows count window divisor) :=
  inferInstanceAs (Decidable (_ ∧ _ ∧ _ ∧ _))

theorem LeadingLimbs.trialOverflow_iff (limbs : LeadingLimbs) {count : Nat}
    (several : 2 ≤ count) (weight_eq : limbs.weight = (2 ^ 32) ^ (count - 2)) :
    limbs.TrialOverflow ↔ WindowOverflows count limbs.window limbs.divisor := by
  have weight_pos : 0 < limbs.weight := Nat.zero_lt_of_lt limbs.vLow_lt
  have second : ((2 : Nat) ^ 32) ^ (count - 1) = limbs.weight * 2 ^ 32 := by
    rw [weight_eq, ← pow_succ]
    congr 1
    omega
  have first : ((2 : Nat) ^ 32) ^ count = limbs.weight * 2 ^ 32 * 2 ^ 32 := by
    rw [← second, ← pow_succ]
    congr 1
    omega
  have peel (high low : Nat) (low_lt : low < limbs.weight) :
      (high * limbs.weight + low) / limbs.weight = high := by
    rw [Nat.mul_comm, Nat.mul_add_div weight_pos, Nat.div_eq_of_lt low_lt, Nat.add_zero]
  have window_low : limbs.window / limbs.weight =
      (limbs.uTop.toNat * 2 ^ 32 + limbs.uMid.toNat) * 2 ^ 32 +
        limbs.uNext.toNat := peel _ _ limbs.uLow_lt
  have divisor_low : limbs.divisor / limbs.weight =
      limbs.vTop.toNat * 2 ^ 32 + limbs.vNext.toNat := peel _ _ limbs.vLow_lt
  have uMid_lt := limbs.uMid.toNat_lt
  have uNext_lt := limbs.uNext.toNat_lt
  have vNext_lt := limbs.vNext.toNat_lt
  have window_mid : limbs.window / (limbs.weight * 2 ^ 32) =
      limbs.uTop.toNat * 2 ^ 32 + limbs.uMid.toNat := by
    rw [← Nat.div_div_eq_div_mul]
    omega
  have window_top : limbs.window / (limbs.weight * 2 ^ 32 * 2 ^ 32) = limbs.uTop.toNat := by
    rw [← Nat.div_div_eq_div_mul]
    omega
  have divisor_top : limbs.divisor / (limbs.weight * 2 ^ 32) = limbs.vTop.toNat := by
    rw [← Nat.div_div_eq_div_mul]
    omega
  have low_limb (high : Nat) (limb : UInt32) :
      (high * 2 ^ 32 + limb.toNat) % 2 ^ 32 = limb.toNat := by
    rw [Nat.mul_add_mod', Nat.mod_eq_of_lt limb.toNat_lt]
  unfold TrialOverflow WindowOverflows
  rw [first, second, ← weight_eq, window_top, window_mid, window_low,
    divisor_top, divisor_low, low_limb, low_limb, low_limb, UInt32.toNat_inj]

theorem length_divideWindow (vn low : List UInt32) (top : UInt32) :
    (divideWindow vn low top).2.1.length = low.length :=
  length_subtractTrial top

theorem length_divideLoop_digits (vn : List UInt32) (position : Nat) (un : List UInt32) :
    (divideLoop vn position un).1.length = position := by
  induction position generalizing un with
  | zero => rfl
  | succ position ih => simp [divideLoop, ih]

section Loop

variable {vn : List UInt32} (several : 2 ≤ vn.length)
  (vTop_pos : 0 < (vn.getD (vn.length - 1) 0).toNat)

/-- The window met at a digit position of the division of `dividend`. -/
def windowAt (dividend divisor position : Nat) : Nat :=
  dividend / (2 ^ 32) ^ position % (divisor * 2 ^ 32)

/-- Removing a multiple of the divisor above a position keeps every window
below it. -/
theorem windowAt_add_mul (lower : below < position) (dividend divisor digit : Nat) :
    windowAt (dividend + (2 ^ 32) ^ position * (divisor * digit)) divisor below =
      windowAt dividend divisor below := by
  have weight : ((2 : Nat) ^ 32) ^ position =
      (2 ^ 32) ^ below * (2 ^ 32 * (2 ^ 32) ^ (position - below - 1)) := by
    rw [← pow_succ', ← pow_add]
    congr 1
    omega
  have weight_pos : 0 < ((2 : Nat) ^ 32) ^ below := Nat.pow_pos (by norm_num)
  have regroup (base power : Nat) : base * power * (divisor * digit) =
      divisor * base * (power * digit) := by ring
  unfold windowAt
  rw [weight, Nat.mul_assoc, Nat.add_mul_div_left _ _ weight_pos, regroup]
  exact Nat.add_mul_mod_self_left _ _ _

/-- No window below a position of the division overflows. -/
def NoneOverflows (count dividend divisor position : Nat) : Prop :=
  ∀ i < position, ¬WindowOverflows count (windowAt dividend divisor i) divisor

theorem noneOverflows_succ {count dividend divisor position : Nat} :
    NoneOverflows count dividend divisor (position + 1) ↔
      NoneOverflows count dividend divisor position ∧
        ¬WindowOverflows count (windowAt dividend divisor position) divisor :=
  Nat.forall_lt_succ_right

theorem noneOverflows_add_mul (count position dividend divisor digit : Nat) :
    NoneOverflows count (dividend + (2 ^ 32) ^ position * (divisor * digit)) divisor position ↔
      NoneOverflows count dividend divisor position := by
  apply forall₂_congr
  intro i lower
  rw [windowAt_add_mul lower]

include several vTop_pos in
/-- The main loop computes the quotient exactly when no window below its
starting position overflows, and then leaves the remainder. -/
theorem divideLoop_value (position : Nat) (un : List UInt32)
    (inside : position + vn.length ≤ un.length)
    (rest_lt : limbsToNat (un.drop position) < limbsToNat vn) :
    (limbsToNat (divideLoop vn position un).1 = limbsToNat un / limbsToNat vn ↔
        NoneOverflows vn.length (limbsToNat un) (limbsToNat vn) position) ∧
      (NoneOverflows vn.length (limbsToNat un) (limbsToNat vn) position →
        limbsToNat (divideLoop vn position un).2 =
          limbsToNat un % limbsToNat vn) := by
  induction position generalizing un with
  | zero =>
    rw [drop_zero] at rest_lt
    simp [divideLoop, NoneOverflows, Nat.div_eq_of_lt rest_lt, Nat.mod_eq_of_lt rest_lt]
  | succ position ih =>
    have divisor_pos : 0 < limbsToNat vn := by omega
    have divisor_lt := limbsToNat_lt vn
    -- Split the array into the untouched part, the window and what is above.
    generalize low_eq : (un.drop position).take vn.length = low
    generalize top_eq : un.getD (position + vn.length) 0 = top
    have low_length : low.length = vn.length := by
      rw [← low_eq, length_take, length_drop]
      omega
    have window_eq : limbsToNat (un.drop position) =
        limbsToNat low + (2 ^ 32) ^ vn.length * (top.toNat + 2 ^ 32 *
          limbsToNat (un.drop (position + vn.length + 1))) := by
      rw [limbsToNat_split (un.drop position) vn.length, low_eq, drop_drop,
        drop_eq_getD_cons un (by omega), top_eq, limbsToNat_cons]
    have window_lt : limbsToNat (un.drop position) < limbsToNat vn * 2 ^ 32 := by
      rw [drop_eq_getD_cons un (by omega), limbsToNat_cons]
      have := (un.getD position 0).toNat_lt
      omega
    have above_zero : limbsToNat (un.drop (position + vn.length + 1)) = 0 := by
      rw [Nat.add_assoc, ← drop_drop, limbsToNat_drop, pow_succ]
      exact Nat.div_eq_of_lt
        (window_lt.trans (Nat.mul_lt_mul_of_pos_right divisor_lt (by norm_num)))
    rw [above_zero, Nat.mul_zero, Nat.add_zero, ← windowValue] at window_eq
    have windowAt_eq : windowAt (limbsToNat un) (limbsToNat vn) position =
        limbsToNat (un.drop position) := by
      unfold windowAt
      rw [← limbsToNat_drop, Nat.mod_eq_of_lt window_lt]
    have overflow_iff :
        (windowLimbs vn low top vTop_pos).TrialOverflow ↔ WindowOverflows vn.length
            (windowAt (limbsToNat un) (limbsToNat vn) position)
            (limbsToNat vn) := by
      rw [LeadingLimbs.trialOverflow_iff _ several rfl,
        window_windowLimbs top several low_length vTop_pos,
        divisor_windowLimbs top several vTop_pos low, windowAt_eq, window_eq]
    simp only [divideLoop, low_eq, top_eq]
    generalize next_eq : un.take position ++ (divideWindow vn low top).2.1 ++
      (divideWindow vn low top).2.2 :: un.drop (position + vn.length + 1) = next
    have digits_length := length_divideLoop_digits vn position next
    have low_digits_lt := limbsToNat_lt (divideLoop vn position next).1
    rw [digits_length] at low_digits_lt
    rw [limbsToNat_append, digits_length]
    simp only [limbsToNat_cons, limbsToNat_nil, Nat.mul_zero, Nat.add_zero]
    rw [window_eq] at window_lt
    by_cases overflow : (windowLimbs vn low top vTop_pos).TrialOverflow
    · -- The emitted digit is too small and the lower digits cannot make up.
      have digit_eq := divideWindow_overflow top several low_length vTop_pos window_lt overflow
      rw [← window_eq] at digit_eq
      have quotient_le : (2 ^ 32) ^ position * (limbsToNat (un.drop position) / limbsToNat vn) ≤
            limbsToNat un / limbsToNat vn := by
        rw [limbsToNat_drop, Nat.div_right_comm]
        exact Nat.mul_div_le _ _
      rw [← digit_eq, Nat.mul_add] at quotient_le
      have exists_overflow :
          ¬NoneOverflows vn.length (limbsToNat un) (limbsToNat vn) (position + 1) :=
        fun none => (noneOverflows_succ.mp none).2 (overflow_iff.mp overflow)
      refine ⟨⟨fun equal => ?_, fun none => absurd none exists_overflow⟩,
        fun none => absurd none exists_overflow⟩
      omega
    · obtain ⟨digit_eq, remainder_eq⟩ := divideWindow_exact top several
        low_length vTop_pos window_lt overflow
      rw [← window_eq] at digit_eq remainder_eq
      have next_length : next.length = un.length := by
        rw [← next_eq]
        simp [length_divideWindow]
        omega
      have untouched_length : (un.take position).length = position := by
        rw [length_take]
        omega
      have next_drop : limbsToNat (next.drop position) =
          limbsToNat (un.drop position) % limbsToNat vn := by
        rw [← next_eq, append_assoc, drop_left' untouched_length, limbsToNat_append,
          length_divideWindow, low_length, limbsToNat_cons, above_zero, Nat.mul_zero]
        exact remainder_eq
      have next_take : next.take position = un.take position := by
        rw [← next_eq, append_assoc]
        exact take_left' untouched_length
      have next_value : limbsToNat un = limbsToNat next +
          (2 ^ 32) ^ position * (limbsToNat vn *
            (limbsToNat (un.drop position) / limbsToNat vn)) := by
        rw [limbsToNat_split next position, next_take, next_drop, Nat.add_assoc,
          ← Nat.mul_add, Nat.mod_add_div]
        exact limbsToNat_split un position
      obtain ⟨quotient_iff, remainder⟩ := ih next (by omega)
        (by rw [next_drop]; exact Nat.mod_lt _ divisor_pos)
      rw [noneOverflows_succ, and_iff_left (mt overflow_iff.mpr overflow), digit_eq,
        next_value, noneOverflows_add_mul, Nat.mul_left_comm,
        Nat.add_mul_div_left _ _ divisor_pos, Nat.add_mul_mod_self_left]
      exact ⟨Nat.add_right_cancel_iff.trans quotient_iff, remainder⟩

end Loop

end AntRuntime.BigInt
