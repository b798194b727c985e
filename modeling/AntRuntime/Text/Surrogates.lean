import AntRuntime.Text.Encoding

/-!
# Surrogates and seams

A text may have lone surrogates among its code points. A high and a low one
next to each other are encoded in UTF-16 as the pair of a supplementary code
point is; the place between them is a seam. A text is determined by its UTF-16
code units and its seams.
-/

namespace AntRuntime.Text

open List Or

/-- A high surrogate. -/
def isHigh (c : Nat) : Bool :=
  decide (0xD800 ≤ c) && decide (c ≤ 0xDBFF)

/-- A low surrogate. -/
def isLow (c : Nat) : Bool :=
  decide (0xDC00 ≤ c) && decide (c ≤ 0xDFFF)

/-- The high surrogate of a supplementary code point. -/
def highOf (c : Nat) : Nat :=
  0xD800 + (c - 0x10000) / 0x400

/-- The low surrogate of a supplementary code point. -/
def lowOf (c : Nat) : Nat :=
  0xDC00 + (c - 0x10000) % 0x400

/-- The number of code units of a code point. -/
def width (c : Nat) : Nat :=
  if c < 0x10000 then 1 else 2

/-- All code points are in the range of Unicode. -/
def Valid (text : List Nat) : Prop :=
  ∀ c ∈ text, c < 0x110000

/-- The text starts with a low surrogate. -/
def startsLow : List Nat → Bool
  | [] => false
  | c :: _ => isLow c

/-- The text ends with a high surrogate. -/
def endsHigh : List Nat → Bool
  | [] => false
  | [c] => isHigh c
  | _ :: c :: text => endsHigh (c :: text)

/-- The places, in code units, between a high and a low surrogate. -/
def Seam : List Nat → Nat → Prop
  | [], _ => False
  | c :: text, k =>
    (k = width c ∧ isHigh c = true ∧ startsLow text = true) ∨
      (width c < k ∧ Seam text (k - width c))

/-- The part of a text between two places in code units; a supplementary code
point at its ends is cut into its surrogates. -/
def range : List Nat → Nat → Nat → List Nat
  | [], _, _ => []
  | c :: text, start, stop =>
    if stop ≤ start then []
    else if c < 0x10000 then
      if start = 0 then c :: range text 0 (stop - 1)
      else range text (start - 1) (stop - 1)
    else if start = 0 then
      if stop = 1 then [highOf c] else c :: range text 0 (stop - 2)
    else if start = 1 then lowOf c :: range text 0 (stop - 2)
    else range text (start - 2) (stop - 2)

section Units

variable {text : List Nat}

theorem utf16Units_basic (basic : c < 0x10000) : utf16Units c = [c] :=
  if_pos basic

theorem utf16Units_supplementary (supplementary : ¬ c < 0x10000) :
    utf16Units c = [highOf c, lowOf c] :=
  if_neg supplementary

theorem utf16_cons (c : Nat) (text : List Nat) : utf16 (c :: text) = utf16Units c ++ utf16 text :=
  flatMap_cons

theorem utf16_append (s t : List Nat) : utf16 (s ++ t) = utf16 s ++ utf16 t :=
  flatMap_append

theorem utf8_cons (c : Nat) (text : List Nat) : utf8 (c :: text) = utf8Bytes c ++ utf8 text :=
  flatMap_cons

theorem utf8_append (s t : List Nat) : utf8 (s ++ t) = utf8 s ++ utf8 t :=
  flatMap_append

theorem length_utf16Units (c : Nat) : (utf16Units c).length = width c := by
  unfold utf16Units width
  split_ifs <;> rfl

theorem width_pos (c : Nat) : 0 < width c := by
  unfold width
  split_ifs <;> omega

theorem utf16_cons_ne_nil (c : Nat) (text : List Nat) : utf16 (c :: text) ≠ [] := by
  rw [utf16_cons, ← length_pos_iff, length_append, length_utf16Units]
  exact Nat.add_pos_left (width_pos c) _

/-- The first code unit of a pair is a high surrogate. -/
theorem highOf_bounds (supplementary : ¬ c < 0x10000) (valid : c < 0x110000) :
    0xD800 ≤ highOf c ∧ highOf c ≤ 0xDBFF := by
  unfold highOf
  omega

/-- The second code unit of a pair is a low surrogate. -/
theorem lowOf_bounds (c : Nat) : 0xDC00 ≤ lowOf c ∧ lowOf c ≤ 0xDFFF := by
  unfold lowOf
  omega

/-- The first code unit of a pair is not a low surrogate. -/
theorem isLow_highOf (supplementary : ¬ c < 0x10000) (valid : c < 0x110000) :
    isLow (highOf c) = false := by
  have bounds := highOf_bounds supplementary valid
  simp [isLow]
  omega

/-- The second code unit of a pair is not a high surrogate. -/
theorem isHigh_lowOf (c : Nat) : isHigh (lowOf c) = false := by
  have bounds := lowOf_bounds c
  simp [isHigh]
  omega

theorem not_isLow_supplementary (supplementary : ¬ c < 0x10000) : isLow c = false := by
  simp [isLow]
  omega

theorem not_isHigh_supplementary (supplementary : ¬ c < 0x10000) : isHigh c = false := by
  simp [isHigh]
  omega

theorem Valid.head (valid : Valid (c :: text)) : c < 0x110000 :=
  valid c (by simp)

theorem Valid.tail (valid : Valid (c :: text)) : Valid text :=
  fun d isIn => valid d (by simp [isIn])

theorem valid_nil : Valid [] :=
  fun _ isIn => absurd isIn not_mem_nil

theorem Valid.cons (tail : Valid text) (head : c < 0x110000) : Valid (c :: text) := by
  exact forall_mem_cons.mpr ⟨head, tail⟩

/-- Two texts of code points make one. -/
theorem Valid.append {s t : List Nat} (sValid : Valid s) (tValid : Valid t) : Valid (s ++ t) := by
  exact forall_mem_append.mpr ⟨sValid, tValid⟩

/-- The first code unit tells whether a text starts with a low surrogate. -/
theorem startsLow_eq (valid : Valid text) : startsLow text = (utf16 text).head?.any isLow := by
  cases text with
  | nil => rfl
  | cons c text =>
    rw [utf16_cons]
    by_cases basic : c < 0x10000
    · rw [utf16Units_basic basic]
      rfl
    · rw [utf16Units_supplementary basic, startsLow, not_isLow_supplementary basic,
        cons_append, head?_cons, Option.any_some,
        isLow_highOf basic valid.head]

/-- The last code unit tells whether a text ends with a high surrogate. -/
theorem endsHigh_eq (text : List Nat) : endsHigh text = (utf16 text).getLast?.any isHigh := by
  induction text with
  | nil => rfl
  | cons c text ih =>
    cases text with
    | nil =>
      by_cases basic : c < 0x10000
      · rw [utf16_cons, utf16Units_basic basic]
        rfl
      · have units : utf16 [c] = [highOf c, lowOf c] := by
          rw [utf16_cons, utf16Units_supplementary basic]
          rfl
        rw [units, endsHigh, not_isHigh_supplementary basic, getLast?_cons_cons,
          getLast?_singleton, Option.any_some, isHigh_lowOf]
    | cons d text =>
      change endsHigh (d :: text) = _
      rw [ih, utf16_cons c, getLast?_append,
        getLast?_eq_some_getLast (utf16_cons_ne_nil d text), Option.some_or]

end Units

section Seams

variable {text : List Nat} {s t : List Nat}

/-- A seam lies strictly inside the text. -/
theorem Seam.bounds (isSeam : Seam text k) : 0 < k ∧ k < (utf16 text).length := by
  induction text generalizing k with
  | nil => exact isSeam.elim
  | cons c text ih =>
    rw [utf16_cons, length_append, length_utf16Units]
    have positive := width_pos c
    rcases isSeam with ⟨rfl, _, low⟩ | ⟨above, later⟩
    · refine ⟨positive, ?_⟩
      cases text with
      | nil => cases low
      | cons d text => exact Nat.lt_add_of_pos_right (length_pos_iff.mpr (utf16_cons_ne_nil d text))
    · have := ih later
      omega

/-- At a seam two surrogates meet. -/
theorem Seam.surrogates (valid : Valid text) (isSeam : Seam text k) :
    (utf16 text)[k - 1]?.any isHigh = true ∧ (utf16 text)[k]?.any isLow = true := by
  induction text generalizing k with
  | nil => exact isSeam.elim
  | cons c text ih =>
    rcases isSeam with ⟨rfl, high, low⟩ | ⟨above, later⟩
    · have basic : c < 0x10000 := by
        by_contra supplementary
        rw [not_isHigh_supplementary supplementary] at high
        cases high
      rw [width, if_pos basic, utf16_cons, utf16Units_basic basic]
      refine ⟨high, ?_⟩
      rw [startsLow_eq valid.tail, head?_eq_getElem?] at low
      exact low
    · rw [utf16_cons, getElem?_append_right (by rw [length_utf16Units]; omega),
        getElem?_append_right (by rw [length_utf16Units]; omega), length_utf16Units,
        Nat.sub_right_comm]
      exact ih valid.tail later

/-- The seams of two texts put together: those of either one, and the place where they meet
if it parts a high from a low surrogate. -/
theorem seam_append (s t : List Nat) (k : Nat) :
    Seam (s ++ t) k ↔
      Seam s k ∨
        (k = (utf16 s).length ∧ endsHigh s = true ∧ startsLow t = true) ∨
        ((utf16 s).length < k ∧ Seam t (k - (utf16 s).length)) := by
  induction s generalizing k with
  | nil =>
    simp only [Seam, endsHigh, Bool.false_eq_true, false_and, and_false, false_or]
    constructor
    · intro isSeam
      exact ⟨isSeam.bounds.1, isSeam⟩
    · exact fun both => both.2
  | cons c s ih =>
    rw [cons_append, Seam, utf16_cons, length_append, length_utf16Units, ih]
    cases s with
    | nil =>
      simp only [startsLow, Seam, endsHigh, Bool.false_eq_true, and_false, false_and, false_or]
      constructor
      · rintro (here | ⟨above, _, later⟩)
        · exact inl here
        · exact inr ⟨above, later⟩
      · rintro (here | ⟨above, later⟩)
        · exact inl here
        · exact inr ⟨above, later.bounds.1, later⟩
    | cons d s =>
      have longer := width_pos d
      have length_eq : (utf16 (d :: s)).length = width d + (utf16 s).length := by
        rw [utf16_cons, length_append, length_utf16Units]
      constructor
      · rintro (here | ⟨above, inside | ⟨atEnd, both⟩ | ⟨beyond, later⟩⟩)
        · exact inl (inl here)
        · exact inl (inr ⟨above, inside⟩)
        · exact inr (inl ⟨by omega, both⟩)
        · refine inr (inr ⟨by omega, ?_⟩)
          rwa [Nat.sub_sub] at later
      · rintro ((here | ⟨above, inside⟩) | ⟨atEnd, both⟩ | ⟨beyond, later⟩)
        · exact inl here
        · exact inr ⟨above, inl inside⟩
        · exact inr ⟨by omega, inr (inl ⟨by omega, both⟩)⟩
        · refine inr ⟨by omega, inr (inr ⟨by omega, ?_⟩)⟩
          rwa [Nat.sub_sub]

/-- The seams behind the first code point. -/
theorem seam_tail_iff
    (width_eq : width c = width d) (seams : ∀ k, Seam (c :: s) k ↔ Seam (d :: t) k) (k : Nat) :
    Seam s k ↔ Seam t k := by
  have shifted (e : Nat) (text : List Nat) (k : Nat) (positive : 0 < k) :
      Seam (e :: text) (width e + k) ↔ Seam text k := by
    rw [Seam, Nat.add_sub_cancel_left]
    constructor
    · rintro (⟨same, _⟩ | ⟨_, later⟩)
      · omega
      · exact later
    · exact fun later => inr ⟨by omega, later⟩
  constructor
  · intro isSeam
    have positive := isSeam.bounds.1
    rw [← shifted c s k positive, seams, width_eq, shifted d t k positive] at isSeam
    exact isSeam
  · intro isSeam
    have positive := isSeam.bounds.1
    rw [← shifted d t k positive, ← seams, ← width_eq, shifted c s k positive] at isSeam
    exact isSeam

/-- A supplementary code point and a pair with a seam in the same units. -/
theorem seam_of_split
    (basic : c < 0x10000) (supplementary : ¬ d < 0x10000) (sValid : Valid s) (dValid : d < 0x110000)
    (units : utf16 (c :: s) = utf16 (d :: t)) :
    Seam (c :: s) 1 ∧ ¬ Seam (d :: t) 1 := by
  rw [utf16_cons, utf16_cons, utf16Units_basic basic,
    utf16Units_supplementary supplementary] at units
  simp only [cons_append, nil_append, cons.injEq] at units
  obtain ⟨rfl, rest⟩ := units
  have bounds := highOf_bounds supplementary dValid
  constructor
  · refine inl ⟨by rw [width, if_pos basic], ?_, ?_⟩
    · simp only [isHigh, Bool.and_eq_true, decide_eq_true_eq]
      exact bounds
    · have lowBounds := lowOf_bounds d
      rw [startsLow_eq sValid, rest, head?_cons, Option.any_some]
      simp only [isLow, Bool.and_eq_true, decide_eq_true_eq]
      exact lowBounds
  · rintro (⟨same, _⟩ | ⟨above, _⟩) <;> simp [width, supplementary] at *

/-- A text is determined by its code units and its seams. -/
theorem eq_of_utf16_of_seams (sValid : Valid s) (tValid : Valid t) (units : utf16 s = utf16 t)
    (seams : ∀ k, Seam s k ↔ Seam t k) : s = t := by
  induction s generalizing t with
  | nil =>
    cases t with
    | nil => rfl
    | cons d t => exact absurd units.symm (utf16_cons_ne_nil d t)
  | cons c s ih =>
    cases t with
    | nil => exact absurd units (utf16_cons_ne_nil c s)
    | cons d t =>
      by_cases cBasic : c < 0x10000
      · by_cases dBasic : d < 0x10000
        · have width_eq : width c = width d := by simp [width, cBasic, dBasic]
          rw [utf16_cons, utf16_cons, utf16Units_basic cBasic, utf16Units_basic dBasic] at units
          obtain ⟨rfl, rest⟩ := cons.inj units
          rw [ih sValid.tail tValid.tail rest (seam_tail_iff width_eq seams)]
        · obtain ⟨cut, joined⟩ := seam_of_split cBasic dBasic sValid.tail tValid.head units
          exact absurd ((seams 1).mp cut) joined
      · by_cases dBasic : d < 0x10000
        · obtain ⟨cut, joined⟩ := seam_of_split dBasic cBasic tValid.tail sValid.head units.symm
          exact absurd ((seams 1).mpr cut) joined
        · have width_eq : width c = width d := by simp [width, cBasic, dBasic]
          rw [utf16_cons, utf16_cons, utf16Units_supplementary cBasic,
            utf16Units_supplementary dBasic] at units
          simp only [cons_append, cons.injEq] at units
          obtain ⟨high, low, rest⟩ := units
          obtain rfl : c = d := by
            unfold highOf at high
            unfold lowOf at low
            omega
          rw [ih sValid.tail tValid.tail rest (seam_tail_iff width_eq seams)]

end Seams

section Ranges

variable {text : List Nat}

/-- A range that ends before it starts is empty. -/
theorem range_of_stop_le (text : List Nat) (empty : stop ≤ start) : range text start stop = [] := by
  cases text with
  | nil => rfl
  | cons c text => rw [range, if_pos empty]

/-- A range that starts with the first code point. -/
theorem range_whole (c : Nat) (text : List Nat) (stop : Nat) :
    range (c :: text) 0 (stop + width c) = c :: range text 0 stop := by
  by_cases basic : c < 0x10000 <;> simp [range, width, basic]

/-- A range that starts behind the first code point. -/
theorem range_past (c : Nat) (text : List Nat) (start stop : Nat) :
    range (c :: text) (start + width c) (stop + width c) = range text start stop := by
  by_cases empty : stop ≤ start
  · rw [range_of_stop_le _ (by omega), range_of_stop_le _ empty]
  · by_cases basic : c < 0x10000 <;> simp [range, width, basic, empty]

/-- A range that starts between the two surrogates. -/
theorem range_low (supplementary : ¬ c < 0x10000) (text : List Nat) (stop : Nat) :
    range (c :: text) 1 (stop + 2) = lowOf c :: range text 0 stop := by
  simp [range, supplementary]

/-- A range that ends between the two surrogates. -/
theorem range_high (supplementary : ¬ c < 0x10000) (text : List Nat) :
    range (c :: text) 0 1 = [highOf c] := by
  simp [range, supplementary]

/-- Every way in which a range lies to the first code point. -/
theorem range_induct
    {motive : List Nat → Nat → Nat → List Nat → Prop} (nil : ∀ start stop, motive [] start stop [])
    (empty : ∀ text start stop, stop ≤ start → motive text start stop [])
    (whole : ∀ c text stop, motive text 0 stop (range text 0 stop) →
      motive (c :: text) 0 (stop + width c) (c :: range text 0 stop))
    (past : ∀ c text start stop, motive text start stop (range text start stop) →
      motive (c :: text) (start + width c) (stop + width c) (range text start stop))
    (high : ∀ c text, ¬ c < 0x10000 → motive (c :: text) 0 1 [highOf c])
    (low : ∀ c text stop, ¬ c < 0x10000 → motive text 0 stop (range text 0 stop) →
      motive (c :: text) 1 (stop + 2) (lowOf c :: range text 0 stop))
    (text : List Nat) (start stop : Nat) : motive text start stop (range text start stop) := by
  induction text generalizing start stop with
  | nil => exact nil start stop
  | cons c text ih =>
    by_cases isEmpty : stop ≤ start
    · rw [range_of_stop_le _ isEmpty]
      exact empty _ start stop isEmpty
    by_cases behind : width c ≤ start
    · obtain ⟨start, rfl⟩ := Nat.exists_eq_add_of_le' behind
      obtain ⟨stop, rfl⟩ : ∃ rest, stop = rest + width c := ⟨stop - width c, by omega⟩
      rw [range_past]
      exact past c text start stop (ih start stop)
    by_cases fits : start = 0 ∧ width c ≤ stop
    · obtain ⟨rfl, fits⟩ := fits
      obtain ⟨stop, rfl⟩ := Nat.exists_eq_add_of_le' fits
      rw [range_whole]
      exact whole c text stop (ih 0 stop)
    -- An end of the range is between two surrogates.
    have supplementary : ¬ c < 0x10000 := by
      intro basic
      rw [width, if_pos basic] at behind fits
      omega
    rw [width, if_neg supplementary] at behind fits
    by_cases atStart : start = 0
    · obtain ⟨rfl, rfl⟩ : start = 0 ∧ stop = 1 := by omega
      rw [range_high supplementary]
      exact high c text supplementary
    · obtain rfl : start = 1 := by omega
      obtain ⟨stop, rfl⟩ : ∃ rest, stop = rest + 2 := ⟨stop - 2, by omega⟩
      rw [range_low supplementary]
      exact low c text stop supplementary (ih 0 stop)

/-- Without supplementary code points a range is counted in code points. -/
theorem range_of_basic (basic : ∀ c ∈ text, c < 0x10000) (start stop : Nat) :
    range text start stop = (text.drop start).take (stop - start) := by
  induction text, start, stop using range_induct with
  | nil => simp
  | empty text start stop isEmpty => simp [Nat.sub_eq_zero_of_le isEmpty]
  | whole c text stop ih | past c text start stop ih =>
    rw [ih fun d isIn => basic d (mem_cons_of_mem c isIn), width, if_pos (basic c mem_cons_self)]
    simp
  | high | low => exact absurd (basic _ mem_cons_self) ‹_›

/-- A range has the code units between its ends. -/
theorem utf16_range {text : List Nat} (valid : Valid text) (start stop : Nat) :
    utf16 (range text start stop) = ((utf16 text).drop start).take (stop - start) := by
  induction text, start, stop using range_induct with
  | nil => simp [utf16]
  | empty text start stop isEmpty => simp [utf16, Nat.sub_eq_zero_of_le isEmpty]
  | whole c text stop ih =>
    rw [utf16_cons, utf16_cons, ih valid.tail, ← length_utf16Units, Nat.add_comm]
    exact (take_length_add_append stop).symm
  | past c text start stop ih =>
    rw [utf16_cons, ih valid.tail, ← length_utf16Units, Nat.add_comm start,
      drop_length_add_append, Nat.add_comm, Nat.add_sub_add_left]
  | high c text supplementary =>
    have bounds := highOf_bounds supplementary valid.head
    rw [utf16_cons, utf16_cons, utf16Units_basic (by omega), utf16Units_supplementary supplementary]
    rfl
  | low c text stop supplementary ih =>
    have bounds := lowOf_bounds c
    rw [utf16_cons, utf16_cons, utf16Units_basic (by omega),
      utf16Units_supplementary supplementary, ih valid.tail]
    rfl

/-- A range of a text of code points is one. -/
theorem Valid.range {text : List Nat} (valid : Valid text) (start stop : Nat) :
    Valid (range text start stop) := by
  induction text, start, stop using range_induct with
  | nil | empty => exact valid_nil
  | whole c text stop ih => exact (ih valid.tail).cons valid.head
  | past c text start stop ih => exact ih valid.tail
  | high c text supplementary =>
    have bounds := highOf_bounds supplementary valid.head
    exact valid_nil.cons (by omega)
  | low c text stop _ ih =>
    have bounds := lowOf_bounds c
    exact (ih valid.tail).cons (by omega)

/-- The start of a range from the start. -/
theorem startsLow_range (valid : Valid text) (positive : 0 < stop) :
    startsLow (range text 0 stop) = startsLow text := by
  cases text with
  | nil => rfl
  | cons c text =>
    rw [range, if_neg (Nat.not_le.mpr positive), if_pos rfl, if_pos rfl]
    split_ifs with basic
    · rfl
    · rw [startsLow, startsLow, isLow_highOf basic valid.head, not_isLow_supplementary basic]
    · rfl

/-- A range has the seams between its ends. -/
theorem seam_range (valid : Valid text) (start stop k : Nat) :
    Seam (range text start stop) k ↔ 0 < k ∧ k < stop - start ∧ Seam text (start + k) := by
  induction text, start, stop using range_induct generalizing k with
  | nil => simp [Seam]
  | empty text start stop isEmpty =>
    refine iff_of_false id ?_
    rintro ⟨_, within, _⟩
    omega
  | whole c text stop ih =>
    have positive := width_pos c
    rw [Seam, Seam, ih valid.tail, Nat.zero_add, Nat.zero_add, Nat.sub_zero, Nat.sub_zero]
    constructor
    · rintro (⟨rfl, high, low⟩ | ⟨above, _, within, later⟩)
      · have nonempty : 0 < stop := by
          by_contra none
          rw [range_of_stop_le _ (by omega)] at low
          cases low
        rw [startsLow_range valid.tail nonempty] at low
        exact ⟨positive, by omega, inl ⟨rfl, high, low⟩⟩
      · exact ⟨by omega, by omega, inr ⟨above, later⟩⟩
    · rintro ⟨_, within, ⟨rfl, high, low⟩ | ⟨above, later⟩⟩
      · refine inl ⟨rfl, high, ?_⟩
        rwa [startsLow_range valid.tail (by omega)]
      · exact inr ⟨above, by omega, by omega, later⟩
  | past c text start stop ih =>
    rw [ih valid.tail, Seam, show start + width c + k - width c = start + k by omega]
    constructor
    · rintro ⟨positive, within, later⟩
      exact ⟨positive, by omega, inr ⟨by omega, later⟩⟩
    · rintro ⟨positive, within, ⟨same, _⟩ | ⟨_, later⟩⟩
      · omega
      · exact ⟨positive, by omega, later⟩
  | high c text supplementary =>
    simp only [Seam, startsLow, Bool.false_eq_true, and_false, or_self, false_iff]
    rintro ⟨positive, within, _⟩
    omega
  | low c text stop supplementary ih =>
    have lowWidth : width (lowOf c) = 1 := by
      have bounds := lowOf_bounds c
      exact if_pos (by omega)
    rw [Seam, Seam, lowWidth, width, if_neg supplementary, ih valid.tail, isHigh_lowOf,
      not_isHigh_supplementary supplementary, show 1 + k - 2 = k - 1 by omega]
    simp only [Nat.zero_add, Bool.false_eq_true, false_and, and_false, false_or]
    constructor
    · rintro ⟨above, _, within, later⟩
      exact ⟨by omega, by omega, by omega, later⟩
    · rintro ⟨positive, within, above, later⟩
      exact ⟨by omega, by omega, by omega, later⟩

end Ranges

end AntRuntime.Text
