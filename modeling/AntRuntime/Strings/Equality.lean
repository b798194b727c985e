import AntRuntime.Strings.Scanning
import Mathlib.Data.List.Induction

/-!
# Equality of built strings

Strings are built from literals by slicing and concatenation. ECMAScript compares
their code units; the runtime compares bytes. The bytes also tell where a high and
a low surrogate stand next to each other without being one code point, and two
strings with the same code units are equal exactly if they have the same such
places.
-/

namespace AntRuntime.Strings

open List
open Text

/-- How a string is built. -/
inductive Expr where
  | literal (pieces : List Piece)
  | slice (of : Expr) (start : Int) (stop : Option Int)
  | concat (left right : Expr)
deriving DecidableEq, Repr

section Runtime

/-- The string the runtime builds. -/
def Expr.eval : Expr → Option Str
  | .literal pieces => some (Strings.literal pieces)
  | .slice of start stop => of.eval.bind fun str => Strings.slice str start stop
  | .concat left right => do
      let l ← left.eval
      let r ← right.eval
      return Strings.concat l r

/-- `===` on two built strings. -/
def strictlyEqual (a b : Expr) : Option Bool := do
  let l ← a.eval
  let r ← b.eval
  strictEqValues l r

end Runtime

section Ecma

/-- The code point or code unit a piece stands for. -/
def Piece.value : Piece → Nat
  | .fixed codeUnit => codeUnit
  | .point cp => cp

/-- The code units of a piece. -/
def Piece.units (piece : Piece) : List Nat :=
  utf16Units piece.value

/-- A relative index of ECMAScript, kept within a string of the given length. -/
def relativeIndex (len : Nat) (d : Int) : Nat :=
  (if d < 0 then max (len + d) 0 else min d len).toNat

/-- The start of a slice. -/
def ecmaStart (len : Nat) (start : Int) : Nat :=
  relativeIndex len start

/-- The end of a slice; a missing argument is the length. -/
def ecmaStop (len : Nat) (stop : Option Int) : Nat :=
  (stop.map (relativeIndex len)).getD len

/-- The code units of a built string in ECMAScript. -/
def Expr.units : Expr → List Nat
  | .literal pieces => pieces.flatMap Piece.units
  | .slice of start stop =>
    (of.units.drop (ecmaStart of.units.length start)).take
      (ecmaStop of.units.length stop - ecmaStart of.units.length start)
  | .concat left right => left.units ++ right.units

end Ecma

section Unjoined

/-- Two pieces are read as one code point. -/
def Piece.joins : Piece → Piece → Bool
  | .fixed high, .fixed low => isHigh high && isLow low
  | _, _ => false

/-- The places in a literal where a high surrogate is followed by a low one and
the two are not four-digit escapes. -/
def unjoinedPieces : List Piece → Nat → Prop
  | piece :: next :: rest, k =>
    (k = piece.units.length ∧ isHigh piece.value = true ∧ isLow next.value = true ∧
        piece.joins next = false) ∨
      (piece.units.length < k ∧ unjoinedPieces (next :: rest) (k - piece.units.length))
  | _, _ => False

/-- The places, in code units, where a built string has a high surrogate followed
by a low one that were not written as one code point: those of the parts, and the
place where two parts meet. -/
def Expr.Unjoined : Expr → Nat → Prop
  | .literal pieces, k => unjoinedPieces pieces k
  | .slice of start stop, k =>
    0 < k ∧ k < ecmaStop of.units.length stop - ecmaStart of.units.length start ∧
      of.Unjoined (ecmaStart of.units.length start + k)
  | .concat left right, k =>
    left.Unjoined k ∨ (k = left.units.length ∧ left.units.getLast?.any isHigh = true ∧
        right.units.head?.any isLow = true) ∨
      (left.units.length < k ∧ right.Unjoined (k - left.units.length))

end Unjoined

section Texts

/-- The text a built string stores. -/
def Expr.text : Expr → List Nat
  | .literal pieces => decodePieces pieces
  | .slice of start stop =>
    range of.text (slicePlaces (utf16 of.text).length start stop).1
      (slicePlaces (utf16 of.text).length start stop).2
  | .concat left right => left.text ++ right.text

/-- Every expression gives a string, which holds its text. -/
theorem stored_eval (e : Expr) : ∃ str, e.eval = some str ∧ Stored str e.text := by
  induction e with
  | literal pieces => exact ⟨_, rfl, stored_flat (valid_decodePieces pieces)⟩
  | slice of start stop ih =>
    obtain ⟨str, evaluated, stored⟩ := ih
    obtain ⟨sliced, result, slicedStored⟩ := stored.slice start stop
    refine ⟨sliced, ?_, slicedStored⟩
    rw [Expr.eval, evaluated]
    exact result
  | concat left right leftHypothesis rightHypothesis =>
    obtain ⟨l, leftEvaluated, leftStored⟩ := leftHypothesis
    obtain ⟨r, rightEvaluated, rightStored⟩ := rightHypothesis
    refine ⟨_, ?_, leftStored.concat rightStored⟩
    rw [Expr.eval, leftEvaluated, rightEvaluated]
    rfl

/-- The text of an expression consists of code points. -/
theorem valid_text (e : Expr) : Valid e.text := by
  obtain ⟨_, -, stored⟩ := stored_eval e
  exact stored.valid

/-- The places that the code computes are those of the standard. -/
theorem slicePlaces_eq (len : Nat) (start : Int) (stop : Option Int) :
    slicePlaces len start stop = (ecmaStart len start, ecmaStop len stop) := by
  have indices : sliceIndex len = relativeIndex len := by
    funext d
    unfold sliceIndex relativeIndex
    split_ifs <;> omega
  rw [slicePlaces, ecmaStart, ecmaStop, indices]

/-- The surrogates of the code point of a pair are the pair. -/
theorem utf16Units_joinSurrogates (highSurrogate : isHigh high = true)
    (lowSurrogate : isLow low = true) :
    utf16Units (joinSurrogates high low) = [high, low] := by
  have bounds := joinSurrogates_bounds highSurrogate lowSurrogate
  simp only [isHigh, isLow, Bool.and_eq_true, decide_eq_true_eq] at highSurrogate lowSurrogate
  have highEq : highOf (joinSurrogates high low) = high := by
    unfold highOf joinSurrogates
    omega
  have lowEq : lowOf (joinSurrogates high low) = low := by
    unfold lowOf joinSurrogates
    omega
  rw [utf16Units_supplementary (by omega), highEq, lowEq]

theorem utf16Units_fixed (codeUnit : Fin 0x10000) : utf16Units codeUnit = [codeUnit.val] :=
  utf16Units_basic codeUnit.isLt

/-- A literal has the code units of its pieces, however they are joined. -/
theorem utf16_decodePieces (pieces : List Piece) :
    utf16 (decodePieces pieces) = pieces.flatMap Piece.units := by
  fun_induction decodePieces pieces with
  | case1 => rfl
  | case2 cp rest ih =>
    rw [utf16_cons, ih]
    rfl
  | case3 high => rfl
  | case4 high cp rest ih =>
    rw [utf16_cons, utf16_cons, ih]
    rfl
  | case5 high low rest surrogates ih =>
    rw [Bool.and_eq_true] at surrogates
    rw [utf16_cons, utf16Units_joinSurrogates surrogates.1 surrogates.2,
      ih, flatMap_cons, flatMap_cons, Piece.units, Piece.units,
      Piece.value, Piece.value, utf16Units_fixed, utf16Units_fixed]
    rfl
  | case6 high low rest notPair ih =>
    rw [utf16_cons, ih]
    rfl

/-- The stored text has the code units ECMAScript asks for. -/
theorem utf16_text (e : Expr) : utf16 e.text = e.units := by
  induction e with
  | literal pieces => exact utf16_decodePieces pieces
  | slice of start stop ih =>
    rw [Expr.text, utf16_range (valid_text of), slicePlaces_eq, ih]
    rfl
  | concat left right leftHypothesis rightHypothesis =>
    rw [Expr.text, utf16_append, leftHypothesis, rightHypothesis]
    rfl

/-- Whether a literal starts with a low surrogate is seen at its first piece. -/
theorem startsLow_decodePieces (piece : Piece) (rest : List Piece) :
    startsLow (decodePieces (piece :: rest)) = isLow piece.value := by
  cases piece with
  | point cp => rfl
  | fixed codeUnit =>
    match rest with
    | [] => rfl
    | .point cp :: rest => rfl
    | .fixed low :: rest =>
      rw [decodePieces]
      split_ifs with surrogates
      · rw [Bool.and_eq_true] at surrogates
        have bounds := joinSurrogates_bounds surrogates.1 surrogates.2
        have isHighSurrogate := surrogates.1
        simp only [isHigh, Bool.and_eq_true, decide_eq_true_eq] at isHighSurrogate
        rw [startsLow, not_isLow_supplementary (by omega), Piece.value, isLow,
          decide_eq_false (by omega), Bool.false_and]
      · rfl

/-- The first two pieces of a literal are joined or stand apart. -/
theorem decodePieces_cons_cons (piece next : Piece) (rest : List Piece) :
    decodePieces (piece :: next :: rest) =
      if piece.joins next then
        joinSurrogates piece.value next.value :: decodePieces rest
      else piece.value :: decodePieces (next :: rest) := by
  cases piece with
  | point cp => rfl
  | fixed high =>
    cases next with
    | point cp | fixed low => rfl

/-- Only a high surrogate and a low one behind it are joined. -/
theorem Piece.joins_surrogates {piece next : Piece} (joined : piece.joins next = true) :
    isHigh piece.value = true ∧ isLow next.value = true := by
  cases piece with
  | point cp => cases joined
  | fixed high =>
    cases next with
    | point cp => cases joined
    | fixed low => exact Bool.and_eq_true_iff.mp joined

/-- Behind two joined pieces the places are those of the rest. -/
theorem unjoinedPieces_of_joins
    {piece next : Piece} (joined : piece.joins next = true) (rest : List Piece) (k : Nat) :
    unjoinedPieces (piece :: next :: rest) k ↔ 2 < k ∧ unjoinedPieces rest (k - 2) := by
  obtain ⟨high, low⟩ := Piece.joins_surrogates joined
  have notHigh : isHigh next.value = false := by
    simp only [isHigh, isLow, Bool.and_eq_true, decide_eq_true_eq] at high low ⊢
    simp only [Bool.and_eq_false_iff, decide_eq_false_iff_not]
    omega
  have basic (value : Nat) (small : value < 0x10000) : (utf16Units value).length = 1 := by
    rw [utf16Units_basic small]
    rfl
  have pieceUnits : piece.units.length = 1 := by
    simp only [isHigh, Bool.and_eq_true, decide_eq_true_eq] at high
    exact basic _ (by omega)
  have nextUnits : next.units.length = 1 := by
    simp only [isLow, Bool.and_eq_true, decide_eq_true_eq] at low
    exact basic _ (by omega)
  rw [unjoinedPieces, joined, pieceUnits]
  cases rest with
  | nil => simp [unjoinedPieces]
  | cons third rest =>
    rw [unjoinedPieces, notHigh, nextUnits]
    simp only [Bool.true_eq_false, Bool.false_eq_true, and_false, false_and, false_or]
    constructor
    · rintro ⟨-, above, later⟩
      exact ⟨by omega, later⟩
    · rintro ⟨above, later⟩
      exact ⟨by omega, by omega, later⟩

/-- The seams of a literal's text are the places its pieces leave unjoined. -/
theorem seam_decodePieces (pieces : List Piece) (k : Nat) :
    Seam (decodePieces pieces) k ↔ unjoinedPieces pieces k := by
  induction pieces using twoStepInduction generalizing k with
  | nil => rfl
  | singleton piece =>
    cases piece <;> simp [decodePieces, Seam, startsLow, unjoinedPieces]
  | cons_cons piece next rest restHypothesis nextHypothesis =>
    rw [decodePieces_cons_cons]
    split_ifs with joined
    · obtain ⟨high, low⟩ := Piece.joins_surrogates joined
      have bounds := joinSurrogates_bounds high low
      rw [Seam, not_isHigh_supplementary (by omega), width, if_neg (by omega),
        restHypothesis, unjoinedPieces_of_joins joined]
      simp
    · rw [Seam, unjoinedPieces, startsLow_decodePieces, nextHypothesis, Piece.units,
        length_utf16Units, Bool.eq_false_iff.mpr joined]
      simp

/-- The stored text's seams are the unjoined places. -/
theorem seam_text (e : Expr) (k : Nat) : Seam e.text k ↔ e.Unjoined k := by
  induction e generalizing k with
  | literal pieces => exact seam_decodePieces pieces k
  | slice of start stop ih =>
    rw [Expr.text, seam_range (valid_text of), slicePlaces_eq, utf16_text, ih]
    rfl
  | concat left right leftHypothesis rightHypothesis =>
    rw [Expr.text, seam_append, leftHypothesis, rightHypothesis,
      endsHigh_eq, startsLow_eq (valid_text right), utf16_text, utf16_text]
    rfl

end Texts

section Comparison

/-- Bytes are equal to themselves. -/
theorem memcmp_self (bytes : Bytes) (n : Nat) : memcmp bytes bytes n = 0 := by
  induction bytes generalizing n with
  | nil => rfl
  | cons b bytes ih =>
    cases n with
    | zero => rfl
    | succ n =>
      rw [memcmp, if_pos rfl]
      exact ih n

/-- Strings of one length that compare as equal have the same bytes. -/
theorem eq_of_memcmp {left right : Bytes} (sameLength : left.length = right.length)
    (same : memcmp left right left.length = 0) :
    left = right := by
  induction left generalizing right with
  | nil => exact (eq_nil_of_length_eq_zero sameLength.symm).symm
  | cons x left ih =>
    cases right with
    | nil => cases sameLength
    | cons y right =>
      rw [length_cons, memcmp] at same
      split_ifs at same with here smaller
      · rw [here, ih (Nat.succ.inj sameLength) same]
      · cases same

/-- `===` compares the stored texts. -/
theorem strictEqValues_eq {l r : Str} {s t : List Nat} (left : Stored l s) (right : Stored r t) :
    strictEqValues l r = some (decide (s = t)) := by
  rw [strictEqValues, left.vstr_eq, right.vstr_eq]
  change some _ = _
  congr 1
  rw [Bool.eq_iff_iff, Bool.and_eq_true, beq_iff_eq, beq_iff_eq, decide_eq_true_eq]
  constructor
  · rintro ⟨sameLength, same⟩
    exact utf8_injective (eq_of_memcmp sameLength same)
  · rintro rfl
    exact ⟨rfl, memcmp_self _ _⟩

/-- Strict equality of strings is the equality of the stored texts. -/
theorem strictlyEqual_eq (a b : Expr) : strictlyEqual a b = some (decide (a.text = b.text)) := by
  obtain ⟨l, aEvaluated, aStored⟩ := stored_eval a
  obtain ⟨r, bEvaluated, bStored⟩ := stored_eval b
  rw [strictlyEqual, aEvaluated, bEvaluated]
  exact strictEqValues_eq aStored bStored

/-- The code units and the unjoined places determine what is stored. -/
theorem text_eq_iff (a b : Expr) :
    a.text = b.text ↔ a.units = b.units ∧ ∀ k, a.Unjoined k ↔ b.Unjoined k := by
  constructor
  · intro same
    refine ⟨by rw [← utf16_text, ← utf16_text, same], fun k => ?_⟩
    rw [← seam_text, ← seam_text, same]
  · rintro ⟨units, places⟩
    apply eq_of_utf16_of_seams (valid_text a) (valid_text b)
    · rw [utf16_text, utf16_text, units]
    · intro k
      rw [seam_text, seam_text]
      exact places k

end Comparison

section Rejoining

/-- `s.slice(0, k) + s.slice(k)`. -/
def Expr.rejoin (s : Expr) (k : Nat) : Expr :=
  .concat (.slice s 0 (some k)) (.slice s k none)

/-- The place is between the surrogates of a code point. -/
def Expr.SplitsPair (s : Expr) (k : Nat) : Prop :=
  0 < k ∧ s.units[k - 1]?.any isHigh = true ∧ s.units[k]?.any isLow = true ∧ ¬ s.Unjoined k

variable (s : Expr) (k : Nat)

/-- A nonnegative index is cut at the length. -/
theorem relativeIndex_natCast (len : Nat) : relativeIndex len k = min k len := by
  unfold relativeIndex
  omega

theorem ecmaStart_natCast (len : Nat) : ecmaStart len k = min k len :=
  relativeIndex_natCast k len

theorem ecmaStop_natCast (len : Nat) : ecmaStop len (some k) = min k len :=
  relativeIndex_natCast k len

theorem ecmaStart_zero (len : Nat) : ecmaStart len 0 = 0 := by
  exact ecmaStart_natCast 0 len

/-- The first part of a string has its first code units. -/
theorem units_firstPart : (Expr.slice s 0 (some k)).units = s.units.take k := by
  rw [Expr.units, ecmaStart_zero, ecmaStop_natCast, drop_zero, Nat.sub_zero, ← take_eq_take_min]

/-- The second part of a string has the code units that are left. -/
theorem units_secondPart : (Expr.slice s k none).units = s.units.drop k := by
  rw [Expr.units, ecmaStart_natCast, ecmaStop, Option.map_none, Option.getD_none, ← length_drop]
  apply ext_getElem?
  intro i
  grind

theorem units_rejoin : (s.rejoin k).units = s.units := by
  rw [Expr.rejoin, Expr.units, units_firstPart, units_secondPart, take_append_drop]

/-- An unjoined place lies strictly inside the string. -/
theorem Expr.Unjoined.bounds {s : Expr} (unjoined : s.Unjoined k) :
    0 < k ∧ k < s.units.length := by
  rw [← utf16_text]
  exact ((seam_text s k).mpr unjoined).bounds

/-- The unjoined places of the first part are those of the string before the cut. -/
theorem unjoined_firstPart (place : Nat) :
    (Expr.slice s 0 (some k)).Unjoined place ↔ place < k ∧ s.Unjoined place := by
  rw [Expr.Unjoined, ecmaStart_zero, ecmaStop_natCast, Nat.zero_add]
  constructor
  · rintro ⟨-, below, unjoined⟩
    exact ⟨by omega, unjoined⟩
  · rintro ⟨below, unjoined⟩
    have bounds := unjoined.bounds
    exact ⟨bounds.1, by omega, unjoined⟩

/-- The unjoined places of the second part are those of the string behind the cut. -/
theorem unjoined_secondPart (place : Nat) :
    (Expr.slice s k none).Unjoined place ↔ 0 < place ∧ s.Unjoined (k + place) := by
  rw [Expr.Unjoined, ecmaStart_natCast]
  constructor
  · rintro ⟨positive, below, unjoined⟩
    change place < s.units.length - min k s.units.length at below
    rw [Nat.min_eq_left (by omega)] at unjoined
    exact ⟨positive, unjoined⟩
  · rintro ⟨positive, unjoined⟩
    have bounds := unjoined.bounds
    rw [Nat.min_eq_left (by omega)]
    exact ⟨positive, show place < s.units.length - k by omega, unjoined⟩

/-- The two parts meet unjoined, whether or not they were so in `s`. -/
theorem unjoined_rejoin (place : Nat) :
    (s.rejoin k).Unjoined place ↔
      (place ≠ k ∧ s.Unjoined place) ∨
        (place = k ∧ 0 < k ∧ s.units[k - 1]?.any isHigh = true ∧
          s.units[k]?.any isLow = true) := by
  rw [Expr.rejoin, Expr.Unjoined, unjoined_firstPart, unjoined_secondPart,
    units_firstPart, units_secondPart, length_take, head?_drop]
  -- A place with a code unit behind it is inside the string.
  have inside (low : s.units[k]?.any isLow = true) : k < s.units.length := by
    by_contra outside
    rw [getElem?_eq_none (by omega)] at low
    cases low
  have last (positive : 0 < k) (below : k < s.units.length) :
      (s.units.take k).getLast? = s.units[k - 1]? := by
    rw [getLast?_take, if_neg (by omega), getElem?_eq_getElem (by omega), Option.some_or]
  constructor
  · rintro (⟨before, unjoined⟩ | ⟨here, high, low⟩ | ⟨after, positive, unjoined⟩)
    · exact Or.inl ⟨by omega, unjoined⟩
    · have below := inside low
      have positive : 0 < k := by
        by_contra zero
        rw [show k = 0 by omega] at high
        cases high
      rw [last positive below] at high
      exact Or.inr ⟨by omega, positive, high, low⟩
    · have bounds := unjoined.bounds
      have same : k + (place - min k s.units.length) = place := by omega
      rw [same] at unjoined
      exact Or.inl ⟨by omega, unjoined⟩
  · rintro (⟨elsewhere, unjoined⟩ | ⟨here, positive, high, low⟩)
    · have bounds := unjoined.bounds
      rcases Nat.lt_or_gt_of_ne elsewhere with before | after
      · exact Or.inl ⟨before, unjoined⟩
      · have same : k + (place - min k s.units.length) = place := by omega
        refine Or.inr (Or.inr ⟨by omega, by omega, ?_⟩)
        rw [same]
        exact unjoined
    · have below := inside low
      rw [last positive below]
      exact Or.inr (Or.inl ⟨by omega, high, low⟩)

/-- A string cut in two and put together is the string again, unless the cut is
inside a code point. -/
theorem text_rejoin_iff : (s.rejoin k).text = s.text ↔ ¬ s.SplitsPair k := by
  rw [text_eq_iff]
  constructor
  · rintro ⟨-, places⟩ ⟨positive, high, low, joined⟩
    apply joined
    rw [← places k, unjoined_rejoin]
    exact Or.inr ⟨rfl, positive, high, low⟩
  · intro whole
    refine ⟨units_rejoin s k, fun place => ?_⟩
    rw [unjoined_rejoin]
    constructor
    · rintro (⟨-, unjoined⟩ | ⟨rfl, positive, high, low⟩)
      · exact unjoined
      · by_contra joined
        exact whole ⟨positive, high, low, joined⟩
    · intro unjoined
      by_cases here : place = k
      · subst here
        have isSeam := (seam_text s place).mpr unjoined
        have surrogates := isSeam.surrogates (valid_text s)
        rw [utf16_text] at surrogates
        exact Or.inr ⟨rfl, unjoined.bounds.1, surrogates⟩
      · exact Or.inl ⟨here, unjoined⟩

end Rejoining

/-- `===` is equality of code units exactly for strings that, if they have the same
code units, leave the same places unjoined; and cutting a string at `k` and putting
it together gives the string back exactly if `k` is not inside a code point. -/
theorem strictlyEqual_iff_unjoined (a b s : Expr) (k : Nat) :
    (strictlyEqual a b = some (decide (a.units = b.units)) ↔
        (a.units = b.units → ∀ place, a.Unjoined place ↔ b.Unjoined place)) ∧
      (strictlyEqual (s.rejoin k) s = some true ↔ ¬ s.SplitsPair k) := by
  constructor
  · rw [strictlyEqual_eq, Option.some.injEq, decide_eq_decide, text_eq_iff]
    constructor
    · intro right sameUnits
      exact (right.mpr sameUnits).2
    · intro places
      exact ⟨fun both => both.1, fun sameUnits => ⟨sameUnits, places sameUnits⟩⟩
  · rw [strictlyEqual_eq, Option.some.injEq, decide_eq_true_eq]
    exact text_rejoin_iff s k

/-- A grinning face cut between its surrogates and put together again. -/
def cutFace : Expr :=
  (Expr.literal [.point 0x1F600]).rejoin 1

/-- A face cut in two and put together again has the code units of the face and is not equal
to it. -/
theorem cutFace_ne_face :
    cutFace.units = (Expr.literal [.point 0x1F600]).units ∧
      strictlyEqual cutFace (.literal [.point 0x1F600]) = some false := by
  constructor
  · rfl
  · decide +kernel

end AntRuntime.Strings
