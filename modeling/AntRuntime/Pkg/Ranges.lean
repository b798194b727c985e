import Mathlib.Data.List.Induction
import AntRuntime.Numeral.Printing
import AntRuntime.Pkg.Version

/-!
# Version ranges

A range is a union of alternatives, each the intersection of its comparators. Reading
the text of a range as a constraint keeps the first comparator of the last alternative,
with zeros for the numbers that are missing, so the constraint means the same as the
range only if the range means the same as that comparator.
-/

namespace AntRuntime.Pkg

open List Numeral
open Tar (Bytes ascii)

section Grammar

/-- The marks that stand for any number. -/
inductive Wildcard where
  | lower
  | upper
  | star
deriving DecidableEq, Repr

def Wildcard.byte : Wildcard → UInt8
  | .lower => 120
  | .upper => 88
  | .star => 42

/-- One of the numbers of a version, or a mark in its place. -/
inductive Part where
  | number (value : Nat)
  | wildcard (mark : Wildcard)
deriving DecidableEq, Repr

def Part.text : Part → Bytes
  | .number value => print 10 value
  | .wildcard mark => [mark.byte]

/-- A prerelease or a build: letters, digits, dashes and dots. -/
structure Label where
  text : Bytes
  plain : ∀ c ∈ text, 48 ≤ c ∧ c ≤ 57 ∨ 65 ≤ c ∧ c ≤ 90 ∨ 97 ≤ c ∧ c ≤ 122 ∨ c = 45 ∨ c = 46
deriving DecidableEq

/-- A version of which the last numbers may be missing. -/
inductive PartialVersion where
  | major (a : Part)
  | minor (a b : Part)
  | full (a b c : Part) (prerelease build : Option Label)
deriving DecidableEq

/-- A label with the character that it starts with. -/
def labelText (c : UInt8) : Option Label → Bytes
  | none => []
  | some label => c :: label.text

def PartialVersion.text : PartialVersion → Bytes
  | .major a => a.text
  | .minor a b => a.text ++ 46 :: b.text
  | .full a b c prerelease build =>
    a.text ++ 46 :: (b.text ++ 46 :: (c.text ++ (labelText 45 prerelease ++ labelText 43 build)))

inductive Operator where
  | plain
  | equal
  | less
  | lessEqual
  | greater
  | greaterEqual
  | caret
  | tilde
deriving DecidableEq, Repr

def Operator.text : Operator → Bytes
  | .plain => []
  | .equal => [61]
  | .less => [60]
  | .lessEqual => [60, 61]
  | .greater => [62]
  | .greaterEqual => [62, 61]
  | .caret => [94]
  | .tilde => [126]

structure Comparator where
  operator : Operator
  version : PartialVersion
deriving DecidableEq

def Comparator.text (comparator : Comparator) : Bytes :=
  comparator.operator.text ++ comparator.version.text

/-- Comparators with blanks between them, one more than the number says. -/
structure Alternative where
  first : Comparator
  others : List (Nat × Comparator)

def Alternative.comparators (alternative : Alternative) : List Comparator :=
  alternative.first :: alternative.others.map Prod.snd

def Alternative.text (alternative : Alternative) : Bytes :=
  alternative.first.text ++ alternative.others.flatMap fun other =>
    replicate (other.1 + 1) 32 ++ other.2.text

/-- Alternatives with `||` between them, and blanks before and after it. -/
structure Range where
  first : Alternative
  others : List ((Nat × Nat) × Alternative)

def Range.alternatives (range : Range) : List Alternative :=
  range.first :: range.others.map Prod.snd

def Range.text (range : Range) : Bytes :=
  range.first.text ++ range.others.flatMap fun other =>
    replicate other.1.1 32 ++ 124 :: 124 :: (replicate other.1.2 32 ++ other.2.text)

def Range.last (range : Range) : Alternative :=
  (range.others.getLast?.map Prod.snd).getD range.first

end Grammar

section Meaning

/-- The numbers of a version come before some others. -/
def Version.Below (v : Version) (bound : Nat × Nat × Nat) : Prop :=
  v.major < bound.1 ∨ v.major = bound.1 ∧
    (v.minor < bound.2.1 ∨ v.minor = bound.2.1 ∧ v.patch < bound.2.2)

instance (v : Version) (bound : Nat × Nat × Nat) : Decidable (v.Below bound) :=
  inferInstanceAs (Decidable (_ ∨ _))

/-- A bound above, if there is one. -/
def Version.BelowEnd (v : Version) : Option (Nat × Nat × Nat) → Prop
  | none => True
  | some bound => v.Below bound

instance (v : Version) : (bound : Option (Nat × Nat × Nat)) → Decidable (v.BelowEnd bound)
  | none => inferInstanceAs (Decidable True)
  | some bound => inferInstanceAs (Decidable (v.Below bound))

/-- The numbers up to the first mark. -/
def knownNumbers : List Part → List Nat
  | .number value :: rest => value :: knownNumbers rest
  | _ => []

def PartialVersion.known : PartialVersion → List Nat
  | .major a => knownNumbers [a]
  | .minor a b => knownNumbers [a, b]
  | .full a b c _ _ => knownNumbers [a, b, c]

/-- A prerelease comes before the version that has only the numbers. -/
def PartialVersion.early : PartialVersion → Bool
  | .full (.number _) (.number _) (.number _) (some _) _ => true
  | _ => false

/-- The first version with the known numbers. -/
def lowerBound : List Nat → Nat × Nat × Nat
  | [] => (0, 0, 0)
  | [a] => (a, 0, 0)
  | [a, b] => (a, b, 0)
  | a :: b :: c :: _ => (a, b, c)

/-- The end of the versions with the known numbers. -/
def blockEnd : List Nat → Option (Nat × Nat × Nat)
  | [] => none
  | [a] => some (a + 1, 0, 0)
  | [a, b] => some (a, b + 1, 0)
  | a :: b :: c :: _ => some (a, b, c + 1)

def tildeEnd : List Nat → Option (Nat × Nat × Nat)
  | [] => none
  | [a] => some (a + 1, 0, 0)
  | a :: b :: _ => some (a, b + 1, 0)

def caretEnd : List Nat → Option (Nat × Nat × Nat)
  | [] => none
  | [a] => some (a + 1, 0, 0)
  | [a, b] => if 0 < a then some (a + 1, 0, 0) else some (0, b + 1, 0)
  | a :: b :: c :: _ =>
    if 0 < a then some (a + 1, 0, 0) else if 0 < b then some (0, b + 1, 0) else some (0, 0, c + 1)

def PartialVersion.lower (version : PartialVersion) : Nat × Nat × Nat :=
  lowerBound version.known

/-- The end of the versions that a partial version stands for. No version without a
prerelease is one with it. -/
def PartialVersion.finish (version : PartialVersion) : Option (Nat × Nat × Nat) :=
  if version.early then some version.lower else blockEnd version.known

/-- The versions without a prerelease that a comparator admits. -/
def Comparator.Admits (comparator : Comparator) (v : Version) : Prop :=
  match comparator.operator with
  | .plain => ¬ v.Below comparator.version.lower ∧ v.BelowEnd comparator.version.finish
  | .equal => ¬ v.Below comparator.version.lower ∧ v.BelowEnd comparator.version.finish
  | .less => v.Below comparator.version.lower
  | .lessEqual => v.BelowEnd comparator.version.finish
  | .greater => ¬ v.BelowEnd comparator.version.finish
  | .greaterEqual => ¬ v.Below comparator.version.lower
  | .caret => ¬ v.Below comparator.version.lower ∧ v.BelowEnd (caretEnd comparator.version.known)
  | .tilde => ¬ v.Below comparator.version.lower ∧ v.BelowEnd (tildeEnd comparator.version.known)

instance (v : Version) : (comparator : Comparator) → Decidable (comparator.Admits v)
  | ⟨.plain, _⟩ => inferInstanceAs (Decidable (_ ∧ _))
  | ⟨.equal, _⟩ => inferInstanceAs (Decidable (_ ∧ _))
  | ⟨.less, version⟩ => inferInstanceAs (Decidable (v.Below version.lower))
  | ⟨.lessEqual, version⟩ => inferInstanceAs (Decidable (v.BelowEnd version.finish))
  | ⟨.greater, version⟩ => inferInstanceAs (Decidable (¬ v.BelowEnd version.finish))
  | ⟨.greaterEqual, version⟩ => inferInstanceAs (Decidable (¬ v.Below version.lower))
  | ⟨.caret, _⟩ => inferInstanceAs (Decidable (_ ∧ _))
  | ⟨.tilde, _⟩ => inferInstanceAs (Decidable (_ ∧ _))

/-- The union over the alternatives of the intersection of their comparators. -/
def Range.Admits (range : Range) (v : Version) : Prop :=
  ∃ alternative ∈ range.alternatives, ∀ comparator ∈ alternative.comparators, comparator.Admits v

instance (range : Range) (v : Version) : Decidable (range.Admits v) :=
  inferInstanceAs (Decidable (∃ alternative ∈ range.alternatives, _))

/-- A version without a prerelease. -/
structure Version.Release (v : Version) : Prop extends v.Fits where
  noPrerelease : v.prerelease = none

end Meaning

section Taken

/-- A number that is small enough. -/
def Part.fits : Part → Option Nat
  | .number value => if value < 2 ^ 64 then some value else none
  | .wildcard _ => none

/-- An operator in place of none or of equality. -/
def Operator.orElse : Operator → Operator → Operator
  | .plain, other => other
  | .equal, other => other
  | operator, _ => operator

/-- A comparator with zeros for what it does not say. Marks among three numbers, and a
dash in a build, cannot be filled in. -/
def Comparator.filled (comparator : Comparator) : Option Comparator :=
  match comparator.version with
  | .major a =>
    match a.fits with
    | none => some ⟨.plain, .major (.wildcard .star)⟩
    | some a =>
      some ⟨comparator.operator.orElse .caret, .full (.number a) (.number 0) (.number 0) none none⟩
  | .minor a b =>
    some ⟨comparator.operator.orElse .tilde,
      .full (.number (a.fits.getD 0)) (.number (b.fits.getD 0)) (.number 0) none none⟩
  | .full a b c prerelease build =>
    if a.fits = none ∨ b.fits = none ∨ c.fits = none then none
    else if prerelease = none ∧ 45 ∈ labelText 43 build then none
    else some comparator

/-- The first part of a version. -/
def PartialVersion.firstPart : PartialVersion → Part
  | .major a => a
  | .minor a _ => a
  | .full a _ _ _ _ => a

def Part.isWild : Part → Bool
  | .number _ => false
  | .wildcard _ => true

/-- The text of a range starts with a mark, like that of a tag. -/
def Range.startsWild (range : Range) : Bool :=
  range.first.first.operator = .plain ∧ range.first.first.version.firstPart.isWild

end Taken

section Satisfying

variable {v w : Version}

def Version.numbers (v : Version) : Nat × Nat × Nat :=
  (v.major, v.minor, v.patch)

/-- A release is below a version exactly if its numbers are. -/
theorem order_eq_lt_iff (release : v.prerelease = none) : v.order w = .lt ↔ v.Below w.numbers := by
  unfold Version.order Version.Below Version.numbers
  rw [release]
  split_ifs with majors minors patches
  any_goals
    rw [Nat.compare_eq_lt]
    simp only
    omega
  · simp only
    cases w.prerelease with
    | none | some label => simp only [reduceCtorEq, false_iff]; omega

/-- A release is above a version if its numbers are, or if they are the same and the other
is a prerelease. -/
theorem order_eq_gt_iff (release : v.prerelease = none) :
    v.order w = .gt ↔ ¬ v.Below w.numbers ∧ (v.numbers = w.numbers → w.prerelease ≠ none) := by
  unfold Version.order Version.Below Version.numbers
  rw [release, Prod.mk.injEq, Prod.mk.injEq]
  split_ifs with majors minors patches
  any_goals
    rw [Nat.compare_eq_gt]
    simp only
    omega
  · simp only
    cases w.prerelease with
    | none | some label => simp; omega

/-- The kind of constraint for an operator. -/
def Operator.kind : Operator → ConstraintKind
  | .plain => .exact
  | .equal => .exact
  | .less => .lt
  | .lessEqual => .lte
  | .greater => .gt
  | .greaterEqual => .gte
  | .caret => .caret
  | .tilde => .tilde

/-- Numbers are compared one by one. -/
theorem numbers_eq_iff :
    v.numbers = (a, b, c) ↔ v.major = a ∧ v.minor = b ∧ v.patch = c := by
  rw [Version.numbers, Prod.mk.injEq, Prod.mk.injEq]

/-- A version is below the end of a full version if its numbers are, or if they are the same
and the full version is no prerelease. -/
theorem belowEnd_finish_iff {prerelease build : Option Label} :
    v.BelowEnd (PartialVersion.full (.number a) (.number b) (.number c) prerelease build).finish ↔
      v.Below (a, b, c) ∨ v.numbers = (a, b, c) ∧ prerelease = none := by
  cases prerelease with
  | none =>
    change v.Below (a, b, c + 1) ↔ _
    rw [numbers_eq_iff]
    simp only [Version.Below, and_true]
    omega
  | some label =>
    change v.Below (a, b, c) ↔ _
    simp

/-- A release satisfies an exact constraint exactly if it is the version named. -/
theorem satisfies_exact_iff (release : v.prerelease = none) :
    Constraint.satisfies ⟨.exact, w, none⟩ v = true ↔
      v.numbers = w.numbers ∧ w.prerelease = none := by
  unfold Constraint.satisfies
  rw [show w.numbers = (w.major, w.minor, w.patch) from rfl, numbers_eq_iff, release]
  simp only
  split_ifs with differs
  · simp only [false_iff]
    rintro ⟨same, -⟩
    exact absurd same (by omega)
  · have same : v.major = w.major ∧ v.minor = w.minor ∧ v.patch = w.patch := by omega
    cases w.prerelease with
    | none => simp [same]
    | some label => simp

/-- A release satisfies a caret or tilde constraint exactly if it lies from its version up
to the end that the operator gives. -/
theorem satisfies_caret_tilde_iff (release : v.prerelease = none) :
    (Constraint.satisfies ⟨.caret, w, none⟩ v = true ↔
      ¬ v.Below w.numbers ∧ v.BelowEnd (caretEnd [w.major, w.minor, w.patch])) ∧
    (Constraint.satisfies ⟨.tilde, w, none⟩ v = true ↔
      ¬ v.Below w.numbers ∧ v.BelowEnd (tildeEnd [w.major, w.minor, w.patch])) := by
  unfold Constraint.satisfies
  simp only [order_eq_lt_iff release]
  by_cases below : v.Below w.numbers
  · simp [below]
  · have notBelow := below
    simp only [Version.Below, Version.numbers] at notBelow
    rw [caretEnd, tildeEnd]
    constructor
    all_goals
      split_ifs <;> simp only [decide_eq_true_eq, Version.BelowEnd, Version.Below,
        Version.numbers] <;> omega

/-- The constraint for a full version admits what the comparator admits. -/
theorem satisfies_full_iff {operator : Operator} {a b c : Nat} {prerelease build : Option Label}
    (release : v.prerelease = none) :
    Constraint.satisfies ⟨operator.kind,
        ⟨a, b, c, prerelease.map Label.text, build.map Label.text⟩, none⟩ v = true ↔
      Comparator.Admits ⟨operator, .full (.number a) (.number b) (.number c) prerelease
        build⟩ v := by
  have ltIff := @order_eq_lt_iff v
    ⟨a, b, c, prerelease.map Label.text, build.map Label.text⟩ release
  have gtIff := @order_eq_gt_iff v
    ⟨a, b, c, prerelease.map Label.text, build.map Label.text⟩ release
  change _ ↔ ¬ v.Below (a, b, c) ∧ (v.numbers = (a, b, c) → prerelease.map Label.text ≠ none)
    at gtIff
  have noLabel : prerelease.map Label.text = none ↔ prerelease = none := Option.map_eq_none_iff
  -- A version with exactly these numbers, for both ways to write an equality.
  have isBlock : (v.numbers = (a, b, c) ∧ prerelease.map Label.text = none) ↔
      (¬ v.Below (a, b, c) ∧ v.BelowEnd
        (PartialVersion.full (.number a) (.number b) (.number c) prerelease build).finish) := by
    rw [belowEnd_finish_iff, noLabel]
    constructor
    · rintro ⟨same, isNone⟩
      refine ⟨?_, Or.inr ⟨same, isNone⟩⟩
      rw [numbers_eq_iff] at same
      simp only [Version.Below]
      omega
    · rintro ⟨notBelow, below | same⟩
      · exact absurd below notBelow
      · exact same
  cases operator with
  | plain | equal => exact (satisfies_exact_iff release).trans isBlock
  | less => exact decide_eq_true_iff.trans ltIff
  | lessEqual =>
    refine decide_eq_true_iff.trans ((not_congr gtIff).trans ?_)
    change _ ↔ v.BelowEnd _
    rw [belowEnd_finish_iff, ← noLabel, not_and_or, not_not, Classical.not_imp, not_not]
  | greater =>
    refine decide_eq_true_iff.trans (gtIff.trans ?_)
    change _ ↔ ¬ v.BelowEnd _
    rw [belowEnd_finish_iff, ← noLabel, not_or, not_and]
  | greaterEqual => exact decide_eq_true_iff.trans (not_congr ltIff)
  | caret => exact (satisfies_caret_tilde_iff release).1
  | tilde => exact (satisfies_caret_tilde_iff release).2

end Satisfying

section Reading

/-- The characters of the numbers and marks. -/
def PartByte (c : UInt8) : Prop :=
  48 ≤ c ∧ c ≤ 57 ∨ c = 120 ∨ c = 88 ∨ c = 42

instance (c : UInt8) : Decidable (PartByte c) :=
  inferInstanceAs (Decidable (_ ∨ _))

theorem digitByte_toNat (small : digit < 10) : (digitByte digit).toNat = 48 + digit := by
  rw [digitByte, if_pos small]
  exact UInt8.toNat_ofNat_of_lt' (by decide +revert)

theorem isNumeral_print (value : Nat) : Tar.IsNumeral 10 (print 10 value) value where
  nonempty := print_ne_nil 10 value
  digit := by
    intro d isIn
    obtain ⟨digit, small, rfl⟩ := mem_print (by decide) isIn
    rw [digitByte_toNat small]
    omega
  value := foldl_print (by decide)
    (fun digit small => by rw [digitByte_toNat small, Nat.add_sub_cancel_left]) value

/-- The text of a part is read as its number, if that fits. -/
theorem parseNumber_text (part : Part) : parseNumber part.text = part.fits := by
  cases part with
  | number value =>
    rw [Part.fits]
    split_ifs with small
    · exact (isNumeral_print value).parseInt (by decide) (by decide) small
    · exact (isNumeral_print value).parseInt_overflow (by decide) (by decide) (by decide)
        (Nat.not_lt.mp small)
  | wildcard mark => cases mark <;> decide

/-- The text of a part has part bytes only. -/
theorem partByte_of_mem {part : Part} (isIn : c ∈ part.text) : PartByte c := by
  cases part with
  | number value =>
    have isDigit := (isNumeral_print value).digit c isIn
    refine Or.inl ?_
    change 48 ≤ c.toNat ∧ c.toNat ≤ 57
    omega
  | wildcard mark =>
    rw [Part.text, mem_singleton] at isIn
    rw [isIn]
    cases mark <;> decide

theorem notIn_text (part : Part) (other : ¬ PartByte c) : c ∉ part.text :=
  fun isIn => other (partByte_of_mem isIn)

theorem text_eq_cons (part : Part) : ∃ c rest, part.text = c :: rest ∧ PartByte c := by
  cases textEq : part.text with
  | nil =>
    cases part with
    | number value => exact absurd textEq (print_ne_nil 10 value)
    | wildcard mark => cases textEq
  | cons c rest => exact ⟨c, rest, rfl, partByte_of_mem (textEq ▸ mem_cons_self)⟩

/-- A version starts with the text of its first part. -/
theorem version_text_eq_cons (version : PartialVersion) :
    ∃ c rest, version.text = c :: rest ∧ PartByte c ∧ version.firstPart.text.head? = some c := by
  obtain ⟨c, rest, textEq, isPart⟩ := text_eq_cons version.firstPart
  obtain ⟨more, versionEq⟩ : ∃ more, version.text = version.firstPart.text ++ more := by
    cases version with
    | major a => exact ⟨[], (append_nil _).symm⟩
    | minor a b | full a b c prerelease build => exact ⟨_, rfl⟩
  rw [textEq] at versionEq
  exact ⟨c, rest ++ more, versionEq, isPart, by rw [textEq]; rfl⟩

/-- The operator is read off the text, and the version is left. -/
theorem readOperator_text (operator : Operator) (version : PartialVersion) :
    readOperator (operator.text ++ version.text) = (operator.kind, version.text) := by
  obtain ⟨c, rest, textEq, isPart, -⟩ := version_text_eq_cons version
  rw [textEq]
  have notOperator (d : UInt8) (other : ¬ PartByte d) : c ≠ d := by
    rintro rfl
    exact other isPart
  have not94 := notOperator 94 (by decide)
  have not126 := notOperator 126 (by decide)
  have not62 := notOperator 62 (by decide)
  have not60 := notOperator 60 (by decide)
  have not61 := notOperator 61 (by decide)
  cases operator with
  | plain => simp [Operator.text, readOperator, Operator.kind, not94, not126, not62, not60, not61]
  | equal => rfl
  | less => simp [Operator.text, readOperator, Operator.kind, not61]
  | lessEqual => rfl
  | greater => simp [Operator.text, readOperator, Operator.kind, not61]
  | greaterEqual | caret | tilde => rfl

/-- A label has letters, digits, hyphens and dots only. -/
theorem notIn_label (label : Label)
    (other : ¬ (48 ≤ d ∧ d ≤ 57 ∨ 65 ≤ d ∧ d ≤ 90 ∨ 97 ≤ d ∧ d ≤ 122 ∨ d = 45 ∨ d = 46)) :
    d ∉ label.text :=
  fun isIn => other (label.plain d isIn)

/-- The build label is split off at the plus sign. -/
theorem splitFirst_labelText {text : Bytes} (noPlus : 43 ∉ text) (build : Option Label) :
    splitFirst 43 (text ++ labelText 43 build) = build.map fun label => (text, label.text) := by
  cases build with
  | none => rw [labelText, append_nil, splitFirst_none noPlus, Option.map_none]
  | some label => exact splitFirst_append noPlus

/-- The patch number with its labels is taken apart, unless a build has a dash. -/
theorem splitPatch_text {c : Part} {prerelease build : Option Label}
    (noDash : ¬ (prerelease = none ∧ 45 ∈ labelText 43 build)) :
    splitPatch (c.text ++ (labelText 45 prerelease ++ labelText 43 build)) =
      (c.text, prerelease.map Label.text, build.map Label.text) := by
  have noDashPart : 45 ∉ c.text := notIn_text c (by decide)
  unfold splitPatch
  cases prerelease with
  | some label =>
    rw [labelText, cons_append, splitFirst_append noDashPart]
    simp only [splitFirst_labelText (notIn_label label (by decide))]
    cases build with
    | none => simp [labelText]
    | some build => rfl
  | none =>
    have noDashAll : 45 ∉ c.text ++ labelText 43 build := fun isIn =>
      (mem_append.mp isIn).elim noDashPart fun isIn => noDash ⟨rfl, isIn⟩
    rw [show labelText 45 none = [] from rfl, nil_append, splitFirst_none noDashAll]
    simp only [splitFirst_labelText (notIn_text c (by decide))]
    cases build with
    | none => simp [labelText]
    | some build => rfl

/-- With a dash in the build, the patch number would have a plus sign in it. -/
theorem parseNumber_splitPatch_of_dash
    {c : Part} {build : Option Label} (isIn : 45 ∈ labelText 43 build) :
    parseNumber (splitPatch (c.text ++ labelText 43 build)).1 = none := by
  obtain ⟨d, rest, textEq, isPart⟩ := text_eq_cons c
  cases build with
  | none => exact absurd isIn not_mem_nil
  | some label =>
    have noDash : 45 ∉ c.text := notIn_text c (by decide)
    have patchEq : (splitPatch (c.text ++ labelText 43 (some label))).1 =
        c.text ++ 43 :: label.text.takeWhile (· ≠ 45) := by
      unfold splitPatch splitFirst
      rw [if_pos (mem_append_right _ isIn)]
      simp only
      have taken : (c.text ++ labelText 43 (some label)).takeWhile (fun d => decide (d ≠ 45)) =
          c.text ++ 43 :: label.text.takeWhile (fun d => decide (d ≠ 45)) := by
        rw [takeWhile_append_of_pos, labelText, takeWhile_cons_of_pos (by decide)]
        exact fun d isIn => decide_eq_true fun same => noDash (same ▸ isIn)
      rw [taken]
      split <;> rfl
    rw [patchEq, parseNumber, textEq, cons_append, Tar.parseInt_cons]
    · rw [Tar.parseIntWithSign, if_neg (cons_ne_nil _ _)]
      split_ifs
      · rfl
      · apply Tar.parseDigits_of_mem (c := 43)
        · simp
        · decide
        · decide
    · rintro rfl
      exact absurd isPart (by decide)
    · rintro rfl
      exact absurd isPart (by decide)

/-- A full version is read unless it has marks, numbers that are too large, or a build
with a dash and no prerelease. -/
theorem parse_text_full (a b c : Part) (prerelease build : Option Label) :
    Version.parse (PartialVersion.full a b c prerelease build).text =
      if prerelease = none ∧ 45 ∈ labelText 43 build then none
      else a.fits.bind fun a => b.fits.bind fun b => c.fits.map fun c =>
        ⟨a, b, c, prerelease.map Label.text, build.map Label.text⟩ := by
  obtain ⟨d, rest, textEq, isPart, -⟩ := version_text_eq_cons (.full a b c prerelease build)
  have notV : (PartialVersion.full a b c prerelease build).text.head? ≠ some 118 := by
    rw [textEq, head?_cons, ne_eq, Option.some.injEq]
    rintro rfl
    exact absurd isPart (by decide)
  have noDot (part : Part) : 46 ∉ part.text := notIn_text part (by decide)
  unfold Version.parse
  rw [if_neg notV, PartialVersion.text, splitFirst_append (noDot a)]
  simp only
  rw [splitFirst_append (noDot b)]
  simp only [parseNumber_text]
  by_cases dashed : prerelease = none ∧ 45 ∈ labelText 43 build
  · rw [if_pos dashed]
    obtain ⟨rfl, isIn⟩ := dashed
    rw [show labelText 45 none = [] from rfl, nil_append, parseNumber_splitPatch_of_dash isIn]
    cases a.fits <;> cases b.fits <;> rfl
  · rw [if_neg dashed]
    simp only [splitPatch_text dashed, parseNumber_text]
    cases a.fits <;> cases b.fits <;> cases c.fits <;> rfl

/-- The constraint for a comparator that has been filled in. -/
def Comparator.constraint : Comparator → Constraint
  | ⟨operator, .full (.number a) (.number b) (.number c) prerelease build⟩ =>
    ⟨operator.kind, ⟨a, b, c, prerelease.map Label.text, build.map Label.text⟩, none⟩
  | _ => ⟨.any, zeroVersion, none⟩

theorem kind_orElse (operator other : Operator) :
    (if operator.kind = .exact then other.kind else operator.kind) =
    (operator.orElse other).kind := by
  cases operator <;> rfl

/-- A part that fits is a number. -/
theorem fits_eq_some {part : Part} (fits : part.fits = some value) :
    part = .number value := by
  cases part with
  | number number =>
    rw [Part.fits] at fits
    split_ifs at fits
    rw [Option.some.inj fits]
  | wildcard mark => cases fits

/-- A comparator is read as what it is filled in to. -/
theorem parsePartial_text (comparator : Comparator) :
    parsePartial comparator.operator.kind comparator.version.text =
      comparator.filled.map Comparator.constraint := by
  obtain ⟨operator, version⟩ := comparator
  have noDot (part : Part) : 46 ∉ part.text := notIn_text part (by decide)
  have countPart (part : Part) : part.text.count 46 = 0 := count_eq_zero.mpr (noDot part)
  unfold parsePartial Comparator.filled
  cases version with
  | major a =>
    simp only [PartialVersion.text, countPart, parseNumber_text]
    cases a.fits with
    | none => rfl
    | some a =>
      simp only [Option.map_some, Comparator.constraint]
      rw [← kind_orElse]
      rfl
  | minor a b =>
    have counted : (PartialVersion.minor a b).text.count 46 = 1 := by
      simp [PartialVersion.text, countPart]
    simp only [counted]
    rw [PartialVersion.text, Tar.takeWhile_ne_append (noDot a), Tar.dropWhile_ne_append (noDot a),
      drop_succ_cons, drop_zero, parseNumber_text, parseNumber_text]
    simp only [Option.map_some, Comparator.constraint]
    rw [← kind_orElse]
    rfl
  | full a b c prerelease build =>
    have counted : 2 ≤ (PartialVersion.full a b c prerelease build).text.count 46 := by
      simp only [PartialVersion.text, count_append, count_cons_self]
      omega
    have notZero : (PartialVersion.full a b c prerelease build).text.count 46 ≠ 0 := by omega
    have notOne : (PartialVersion.full a b c prerelease build).text.count 46 ≠ 1 := by omega
    rw [if_neg notZero, if_neg notOne, parse_text_full]
    simp only
    cases aFits : a.fits with
    | none => simp
    | some major =>
      cases bFits : b.fits with
      | none => simp
      | some minor =>
        cases cFits : c.fits with
        | none => simp
        | some patch =>
          obtain rfl := fits_eq_some aFits
          obtain rfl := fits_eq_some bFits
          obtain rfl := fits_eq_some cFits
          simp only [reduceCtorEq, or_self, if_false]
          split_ifs <;> rfl

/-- What has been filled in admits the versions that satisfy its constraint. -/
theorem satisfies_constraint_iff
    {comparator taken : Comparator} {v : Version} (isFilled : comparator.filled = some taken)
    (release : v.prerelease = none) :
    taken.constraint.satisfies v = true ↔ taken.Admits v := by
  obtain ⟨operator, version⟩ := comparator
  unfold Comparator.filled at isFilled
  cases version with
  | major a =>
    simp only at isFilled
    cases aFits : a.fits with
    | none =>
      rw [aFits] at isFilled
      obtain rfl := Option.some.inj isFilled
      simp [Comparator.constraint, Constraint.satisfies, Comparator.Admits, Version.Below,
        Version.BelowEnd, PartialVersion.lower, PartialVersion.finish, PartialVersion.known,
        PartialVersion.early, knownNumbers, lowerBound, blockEnd]
    | some major =>
      rw [aFits] at isFilled
      obtain rfl := Option.some.inj isFilled
      exact @satisfies_full_iff v (operator.orElse .caret) major 0 0 none none release
  | minor a b =>
    obtain rfl := Option.some.inj isFilled
    exact @satisfies_full_iff v (operator.orElse .tilde) _ _ 0 none none release
  | full a b c prerelease build =>
    simp only at isFilled
    split_ifs at isFilled with missing dashed
    obtain rfl := Option.some.inj isFilled
    rw [not_or, not_or] at missing
    obtain ⟨major, aFits⟩ := Option.ne_none_iff_exists'.mp missing.1
    obtain ⟨minor, bFits⟩ := Option.ne_none_iff_exists'.mp missing.2.1
    obtain ⟨patch, cFits⟩ := Option.ne_none_iff_exists'.mp missing.2.2
    obtain rfl := fits_eq_some aFits
    obtain rfl := fits_eq_some bFits
    obtain rfl := fits_eq_some cFits
    exact satisfies_full_iff release

end Reading

section Selecting

/-- A comparator has no bytes but those of its operator, its parts and its labels. -/
theorem not_mem_comparator_text (comparator : Comparator) (notPart : ¬ PartByte d)
    (notLabel : ¬ (48 ≤ d ∧ d ≤ 57 ∨ 65 ≤ d ∧ d ≤ 90 ∨ 97 ≤ d ∧ d ≤ 122 ∨ d = 45 ∨ d = 46))
    (other : d ≠ 43 ∧ d ≠ 60 ∧ d ≠ 61 ∧ d ≠ 62 ∧ d ≠ 94 ∧ d ≠ 126) : d ∉ comparator.text := by
  have notDot : d ≠ 46 := fun same => notLabel (by simp [same])
  have notDash : d ≠ 45 := fun same => notLabel (by simp [same])
  have notIn (part : Part) : d ∉ part.text := notIn_text part notPart
  have notLabelText (c : UInt8) (label : Option Label) (notStart : d ≠ c) :
      d ∉ labelText c label := by
    cases label with
    | none => exact not_mem_nil
    | some label => simp [labelText, notStart, notIn_label label notLabel]
  obtain ⟨operator, version⟩ := comparator
  rw [Comparator.text, mem_append, not_or]
  constructor
  · cases operator <;> simp [Operator.text, other]
  · cases version with
    | major a => exact notIn a
    | minor a b => simp [PartialVersion.text, notIn, notDot]
    | full a b c prerelease build =>
      simp [PartialVersion.text, notIn, notDot, notLabelText 45 prerelease notDash,
        notLabelText 43 build other.1]

theorem comparator_text_noBlank (comparator : Comparator) : 32 ∉ comparator.text :=
  not_mem_comparator_text comparator (by decide) (by decide) (by decide)

theorem comparator_text_noBar (comparator : Comparator) : 124 ∉ comparator.text :=
  not_mem_comparator_text comparator (by decide) (by decide) (by decide)

/-- An alternative has no bar in it. -/
theorem alternative_text_noBar (alternative : Alternative) : 124 ∉ alternative.text := by
  rw [Alternative.text, mem_append, not_or]
  refine ⟨comparator_text_noBar _, fun isIn => ?_⟩
  obtain ⟨other, -, inOther⟩ := mem_flatMap.mp isIn
  rcases mem_append.mp inOther with isBlank | inText
  · exact absurd (eq_of_mem_replicate isBlank) (by decide)
  · exact comparator_text_noBar other.2 inText

theorem comparator_text_ne_nil (comparator : Comparator) : comparator.text ≠ [] := by
  obtain ⟨c, rest, textEq, -⟩ := version_text_eq_cons comparator.version
  rw [Comparator.text, textEq]
  exact append_ne_nil_of_right_ne_nil _ (cons_ne_nil c rest)

/-- The first comparator ends at the first blank. -/
theorem takeWhile_alternative_text (alternative : Alternative) :
    alternative.text.takeWhile (fun c => decide (c ≠ 32)) = alternative.first.text := by
  have noBlank : ∀ c ∈ alternative.first.text, decide (c ≠ 32) = true := fun c isIn =>
    decide_eq_true fun same => comparator_text_noBlank alternative.first (same ▸ isIn)
  rw [Alternative.text, takeWhile_append_of_pos noBlank]
  cases alternative.others with
  | nil => exact append_nil _
  | cons other others =>
    rw [flatMap_cons, replicate_succ, cons_append, cons_append,
      takeWhile_cons_of_neg (by simp), append_nil]

/-- Without a bar there is nothing behind an or. -/
theorem afterLastOr_none {text : Bytes} (noBar : 124 ∉ text) : afterLastOr text = none := by
  induction text with
  | nil => rfl
  | cons c rest ih =>
    rw [mem_cons, not_or] at noBar
    rw [afterLastOr, ih noBar.2]
    rw [if_neg fun isBar => noBar.1 isBar.1.symm]

/-- Only what stands behind the last or is read. -/
theorem afterLastOr_append {after : Bytes} (before : Bytes) (noBar : 124 ∉ after) :
    afterLastOr (before ++ 124 :: 124 :: after) = some after := by
  induction before with
  | nil =>
    have inner : afterLastOr (124 :: after) = none := by
      rw [afterLastOr, afterLastOr_none noBar]
      rw [if_neg]
      rintro ⟨-, isHead⟩
      exact noBar (mem_of_mem_head? isHead)
    rw [nil_append, afterLastOr, inner]
    rfl
  | cons c before ih => rw [cons_append, afterLastOr, ih]

/-- There are no blanks to skip in a text that does not start with one. -/
theorem dropWhile_blank {text : Bytes} (headNe : text.head? ≠ some 32) :
    text.dropWhile (fun c => decide (c = 32)) = text := by
  cases text with
  | nil => rfl
  | cons c rest => exact dropWhile_cons_of_neg (by simpa using headNe)

/-- Blanks before a text that starts and ends with something else are removed. -/
theorem trimBlanks_replicate {text : Bytes} (count : Nat) (headNe : text.head? ≠ some 32)
    (lastNe : text.getLast? ≠ some 32) :
    trimBlanks (replicate count 32 ++ text) = text := by
  rw [← head?_reverse] at lastNe
  rw [trimBlanks, dropWhile_append_of_pos fun c isIn => decide_eq_true (eq_of_mem_replicate isIn),
    dropWhile_blank headNe, dropWhile_blank lastNe, reverse_reverse]

/-- An alternative neither starts nor ends with a blank. -/
theorem alternative_text_ends (alternative : Alternative) :
    alternative.text.head? ≠ some 32 ∧ alternative.text.getLast? ≠ some 32 := by
  constructor
  · intro isHead
    rw [Alternative.text, head?_append_of_ne_nil _ (comparator_text_ne_nil _)] at isHead
    exact comparator_text_noBlank _ (mem_of_mem_head? isHead)
  · obtain ⟨front, final, textEq⟩ : ∃ front final, alternative.text = front ++ Comparator.text
      final := by
      obtain ⟨first, others⟩ := alternative
      cases others using reverseRecOn with
      | nil => exact ⟨[], first, append_nil _⟩
      | append_singleton init last =>
        exact ⟨first.text ++ (init.flatMap fun other => replicate (other.1 + 1) 32 ++
          other.2.text) ++ replicate (last.1 + 1) 32, last.2, by simp [Alternative.text]⟩
    intro isLast
    rw [textEq, getLast?_append_of_ne_nil _ (comparator_text_ne_nil final)] at isLast
    exact comparator_text_noBlank final (mem_of_mem_getLast? isLast)

/-- Of the text of a range, the first comparator of the last alternative is left. -/
theorem selectComparator_text (range : Range) :
    selectComparator range.text = range.last.first.text := by
  obtain ⟨first, others⟩ := range
  unfold selectComparator
  cases others using reverseRecOn with
  | nil =>
    have textEq : Range.text ⟨first, []⟩ = first.text := append_nil _
    rw [textEq, afterLastOr_none (alternative_text_noBar first)]
    exact takeWhile_alternative_text first
  | append_singleton init last =>
    obtain ⟨⟨before, after⟩, alternative⟩ := last
    have noBar : 124 ∉ replicate after 32 ++ alternative.text := by
      rw [mem_append, not_or]
      exact ⟨fun isIn => absurd (eq_of_mem_replicate isIn) (by decide),
        alternative_text_noBar alternative⟩
    obtain ⟨front, textEq⟩ : ∃ front, Range.text ⟨first, init ++ [((before, after), alternative)]⟩ =
        front ++ 124 :: 124 :: (replicate after 32 ++ alternative.text) :=
      ⟨first.text ++ (init.flatMap fun other => replicate other.1.1 32 ++
        124 :: 124 :: (replicate other.1.2 32 ++ other.2.text)) ++ replicate before 32,
        by simp [Range.text]⟩
    have lastEq : Range.last ⟨first, init ++ [((before, after), alternative)]⟩ = alternative := by
      simp [Range.last]
    obtain ⟨headNe, lastNe⟩ := alternative_text_ends alternative
    rw [textEq, afterLastOr_append front noBar, lastEq]
    simp only
    rw [trimBlanks_replicate after headNe lastNe]
    exact takeWhile_alternative_text alternative

end Selecting

section Correctness

variable {range : Range}

/-- The first character of the text of a range. -/
theorem head_text (range : Range) :
    ∃ c rest, range.text = c :: rest ∧
      (range.startsWild = true → PartByte c ∧ startsConstraint c = false) ∧
      (range.startsWild = false → startsConstraint c = true) := by
  obtain ⟨⟨⟨operator, version⟩, others⟩, alternatives⟩ := range
  obtain ⟨c, rest, versionEq, isPart, isHead⟩ := version_text_eq_cons version
  have textEq : ∃ more, Range.text ⟨⟨⟨operator, version⟩, others⟩, alternatives⟩ =
      operator.text ++ (c :: more) := by
    refine ⟨rest ++ (others.flatMap fun other => replicate (other.1 + 1) 32 ++ other.2.text) ++
      (alternatives.flatMap fun other => replicate other.1.1 32 ++
        124 :: 124 :: (replicate other.1.2 32 ++ other.2.text)), ?_⟩
    simp [Range.text, Alternative.text, Comparator.text, versionEq]
  obtain ⟨more, textEq⟩ := textEq
  rw [textEq]
  cases operator with
  | plain =>
    have wildEq : Range.startsWild ⟨⟨⟨.plain, version⟩, others⟩, alternatives⟩ =
        version.firstPart.isWild := by
      simp [Range.startsWild]
    rw [wildEq]
    refine ⟨c, more, rfl, ?_⟩
    cases partEq : version.firstPart with
    | number value =>
      rw [partEq] at isHead
      have isDigit := (isNumeral_print value).digit c (mem_of_mem_head? isHead)
      have between : 48 ≤ c ∧ c ≤ 57 := by
        change 48 ≤ c.toNat ∧ c.toNat ≤ 57
        omega
      exact ⟨fun isWild => absurd isWild (by simp [Part.isWild]), fun _ => by simp
        [startsConstraint, between]⟩
    | wildcard mark =>
      rw [partEq] at isHead
      obtain rfl : mark.byte = c := Option.some.inj isHead
      refine ⟨fun _ => ⟨isPart, ?_⟩, fun notWild => absurd notWild (by simp [Part.isWild])⟩
      cases mark <;> decide
  | equal | less | lessEqual | greater | greaterEqual | caret | tilde =>
    exact ⟨_, _, rfl, by simp [Range.startsWild], fun _ => by decide⟩

/-- A range is read as a tag, as anything, or as its selected comparator. -/
theorem parse_text (range : Range) :
    Constraint.parse range.text =
      if range.startsWild = true then
        if range.text = ascii "*" then some ⟨.any, zeroVersion, none⟩
        else some ⟨.tag, zeroVersion, some range.text⟩
      else range.last.first.filled.map Comparator.constraint := by
  obtain ⟨c, rest, textEq, ifWild, ifNot⟩ := head_text range
  have headEq : range.text.headD 0 = c := by rw [textEq]; rfl
  have notNil : range.text ≠ [] := by rw [textEq]; exact cons_ne_nil c rest
  have headOf {d : UInt8} {more : Bytes} (same : range.text = d :: more) : c = d := by
    rw [textEq] at same
    exact (cons.inj same).1
  unfold Constraint.parse
  rw [headEq, selectComparator_text, Comparator.text, readOperator_text, parsePartial_text]
  by_cases isWild : range.startsWild = true
  · obtain ⟨isPart, notConstraint⟩ := ifWild isWild
    have notLatest : range.text ≠ ascii "latest" := fun same => by
      obtain rfl := headOf same
      exact absurd isPart (by decide)
    rw [if_pos isWild]
    by_cases isStar : range.text = ascii "*"
    · rw [if_pos (Or.inr (Or.inl isStar)), if_pos isStar]
    · rw [if_neg (by simp [notNil, isStar, notLatest]), if_pos notConstraint, if_neg isStar]
  · have isConstraint := ifNot (Bool.not_eq_true _ ▸ isWild)
    have notFor {d : UInt8} {more : Bytes} (other : startsConstraint d = false) :
        range.text ≠ d :: more := fun same => by
      rw [headOf same, other] at isConstraint
      cases isConstraint
    have notStar : range.text ≠ ascii "*" := notFor (by decide)
    have notLatest : range.text ≠ ascii "latest" := notFor (by decide)
    rw [if_neg (by simp [notNil, notStar, notLatest]), if_neg (by simp [isConstraint]),
      if_neg isWild]

/-- The text `*` is that of one mark. -/
theorem admits_of_text_eq_star (isStar : range.text = ascii "*") (v : Version) :
    range.Admits v := by
  obtain ⟨⟨⟨operator, version⟩, others⟩, alternatives⟩ := range
  have only {d : UInt8} (other : d ≠ 42)
      (isIn : d ∈ Range.text ⟨⟨⟨operator, version⟩, others⟩, alternatives⟩) : False := by
    rw [isStar] at isIn
    exact other (mem_singleton.mp isIn)
  have others_nil : others = [] := by
    cases others with
    | nil => rfl
    | cons other others =>
      exact (only (d := 32) (by decide) (by simp [Range.text, Alternative.text])).elim
  have alternatives_nil : alternatives = [] := by
    cases alternatives with
    | nil => rfl
    | cons other others => exact (only (d := 124) (by decide) (by simp [Range.text])).elim
  have operator_plain : operator = .plain := by
    have mark (d : UInt8) (isIn : d ∈ operator.text) (other : d ≠ 42) : False :=
      only other (by simp [Range.text, Alternative.text, Comparator.text, isIn])
    cases operator with
    | plain => rfl
    | equal | less | lessEqual | greater | greaterEqual | caret | tilde =>
      exact (mark _ mem_cons_self (by decide)).elim
  subst others_nil alternatives_nil operator_plain
  have textEq : version.text = [42] := by
    rw [← show ascii "*" = [42] from rfl, ← isStar]
    simp [Range.text, Alternative.text, Comparator.text, Operator.text]
  refine ⟨_, mem_singleton.mpr rfl, fun comparator isIn => ?_⟩
  obtain rfl := mem_singleton.mp isIn
  cases version with
  | major a =>
    cases a with
    | number value =>
      have isIn : 42 ∈ (Part.number value).text := by
        rw [show (Part.number value).text = [42] from textEq]
        exact mem_singleton.mpr rfl
      exact absurd ((isNumeral_print value).digit 42 isIn) (by decide)
    | wildcard mark =>
      refine ⟨?_, trivial⟩
      change ¬ v.Below (0, 0, 0)
      simp [Version.Below]
  | minor a b | full a b c prerelease build =>
    have hasDot : (46 : UInt8) ∈ [42] := textEq ▸ by simp [PartialVersion.text]
    exact absurd hasDot (by decide)

/-- The constraint that is read from a range means what the range means exactly if the
range means the same as the first comparator of its last alternative, filled in with
zeros; a range that starts with a mark is right only as `*` or if it is empty. -/
theorem constraint_of_range_iff (range : Range) :
    (∃ constraint, Constraint.parse range.text = some constraint ∧
      ∀ v : Version, v.Release → (constraint.satisfies v = true ↔ range.Admits v)) ↔
      if range.startsWild = true then
        range.text = ascii "*" ∨ ∀ v : Version, v.Release → ¬ range.Admits v
      else ∃ taken, range.last.first.filled = some taken ∧
        ∀ v : Version, v.Release → (range.Admits v ↔ taken.Admits v) := by
  rw [parse_text]
  split_ifs with isWild isStar
  · refine iff_of_true ⟨_, rfl, fun v _ => ?_⟩ (Or.inl isStar)
    exact iff_of_true rfl (admits_of_text_eq_star isStar v)
  · constructor
    · rintro ⟨constraint, isTag, means⟩
      obtain rfl := Option.some.inj isTag
      exact Or.inr fun v release admits => absurd ((means v release).mpr admits)
        (by simp [Constraint.satisfies])
    · rintro (same | isEmpty)
      · exact absurd same isStar
      · exact ⟨_, rfl, fun v release => iff_of_false (by simp [Constraint.satisfies])
          (isEmpty v release)⟩
  · constructor
    · rintro ⟨constraint, isRead, means⟩
      obtain ⟨taken, isTaken, rfl⟩ := Option.map_eq_some_iff.mp isRead
      refine ⟨taken, isTaken, fun v release => ?_⟩
      rw [← means v release, satisfies_constraint_iff isTaken release.noPrerelease]
    · rintro ⟨taken, isTaken, means⟩
      refine ⟨taken.constraint, by rw [isTaken]; rfl, fun v release => ?_⟩
      rw [means v release, satisfies_constraint_iff isTaken release.noPrerelease]

/-- The range `^1.0.0 || ^2.0.0`. -/
def twoCarets : Range where
  first := ⟨⟨.caret, .full (.number 1) (.number 0) (.number 0) none none⟩, []⟩
  others := [((1, 1), ⟨⟨.caret, .full (.number 2) (.number 0) (.number 0) none none⟩, []⟩)]

/-- Only the last alternative counts. -/
theorem constraint_of_range_wrong :
    twoCarets.text = ascii "^1.0.0 || ^2.0.0" ∧
      Constraint.parse twoCarets.text = some ⟨.caret, ⟨2, 0, 0, none, none⟩, none⟩ ∧
      Constraint.satisfies ⟨.caret, ⟨2, 0, 0, none, none⟩, none⟩ ⟨1, 0, 0, none, none⟩ = false ∧
      twoCarets.Admits ⟨1, 0, 0, none, none⟩ := by
  decide

end Correctness

end AntRuntime.Pkg
