import AntRuntime.Files.Tree
import Mathlib.Algebra.Group.Nat.Defs

/-!
# Names and numbers in a tar archive

The fields of a header block, the numbers in them, and the paths that the extractor
accepts: an accepted path leads inward from where it starts.
-/

namespace AntRuntime.Tar

open List

abbrev Bytes := List UInt8

/-- The bytes of a text of ASCII characters. -/
def ascii (text : String) : Bytes :=
  text.toList.map fun c => UInt8.ofNat c.toNat

section Numbers

/-- `std.fmt.charToDigit` for the smaller bases. -/
def charToDigit (base : Nat) (c : UInt8) : Option Nat :=
  let digit :=
    if 48 ≤ c ∧ c ≤ 57 then some (c.toNat - 48)
    else if 65 ≤ c ∧ c ≤ 90 then some (c.toNat - 55)
    else if 97 ≤ c ∧ c ≤ 122 then some (c.toNat - 87)
    else none
  digit.filter (· < base)

/-- The loop of `parseIntWithSign` for an unsigned type with values below `limit`. A
negative number is only accepted if it is zero. -/
def parseDigits (limit base : Nat) (negative : Bool) : Nat → Bytes → Option Nat
  | value, [] => some value
  | value, c :: rest =>
    if c = 95 then parseDigits limit base negative value rest
    else
      match charToDigit base c with
      | none => none
      | some digit =>
        if negative then
          if digit = 0 then parseDigits limit base negative value rest else none
        else if value * base + digit < limit then
          parseDigits limit base negative (value * base + digit) rest
        else none

/-- `parseIntWithSign`: no underscore at either end. -/
def parseIntWithSign (limit base : Nat) (negative : Bool) (buf : Bytes) : Option Nat :=
  if buf = [] then none
  else if buf.head? = some 95 ∨ buf.getLast? = some 95 then none
  else parseDigits limit base negative 0 buf

/-- `std.fmt.parseInt`. -/
def parseInt (limit base : Nat) : Bytes → Option Nat
  | [] => none
  | 43 :: rest => parseIntWithSign limit base false rest
  | 45 :: rest => parseIntWithSign limit base true rest
  | buf => parseIntWithSign limit base false buf

/-- `std.mem.trimEnd` of NUL and blank. -/
def trimEnd (field : Bytes) : Bytes :=
  (field.reverse.dropWhile fun c => c = 0 ∨ c = 32).reverse

end Numbers

section Numerals

/-- Read on with more digits. -/
def numeralFrom (base value : Nat) (digits : Bytes) : Nat :=
  digits.foldl (fun value digit => value * base + (digit.toNat - 48)) value

/-- The digits of a number. -/
structure IsNumeral (base : Nat) (digits : Bytes) (value : Nat) : Prop where
  nonempty : digits ≠ []
  digit : ∀ d ∈ digits, 48 ≤ d.toNat ∧ d.toNat < 48 + base
  value : numeralFrom base 0 digits = value

variable {base limit value : Nat} {digits : Bytes}

theorem le_numeralFrom (positive : 0 < base) (value : Nat) (digits : Bytes) :
    value ≤ numeralFrom base value digits := by
  induction digits generalizing value with
  | nil => exact Nat.le_refl _
  | cons digit digits ih =>
    have step := ih (value * base + (digit.toNat - 48))
    have grows := Nat.le_mul_of_pos_right value positive
    exact Nat.le_trans (Nat.le_trans grows (Nat.le_add_right _ _)) step

theorem charToDigit_eq (small : base ≤ 10) (isDigit : 48 ≤ d.toNat ∧ d.toNat < 48 + base) :
    charToDigit base d = some (d.toNat - 48) := by
  have isDecimal : 48 ≤ d ∧ d ≤ 57 := by
    change 48 ≤ d.toNat ∧ d.toNat ≤ 57
    omega
  rw [charToDigit, if_pos isDecimal]
  simp only [Option.filter_some, decide_eq_true_eq]
  rw [if_pos (by omega)]

/-- Digits are read as a number that fits, or refused. -/
theorem parseDigits_eq (small : base ≤ 10) (positive : 0 < base)
    (areDigits : ∀ d ∈ digits, 48 ≤ d.toNat ∧ d.toNat < 48 + base) (fitsSoFar : value < limit) :
    parseDigits limit base false value digits =
      if numeralFrom base value digits < limit then some (numeralFrom base value digits)
      else none := by
  induction digits generalizing value with
  | nil => exact (if_pos fitsSoFar).symm
  | cons d digits ih =>
    have isDigit := areDigits d mem_cons_self
    have notUnderscore : d ≠ 95 := by
      rintro rfl
      have isNumber : (95 : UInt8).toNat = 95 := rfl
      omega
    have step := le_numeralFrom positive (value * base + (d.toNat - 48)) digits
    rw [parseDigits, if_neg notUnderscore, charToDigit_eq small isDigit]
    simp only
    by_cases fits : value * base + (d.toNat - 48) < limit
    · rw [if_pos fits]
      exact ih (fun other isIn => areDigits other (mem_cons_of_mem d isIn)) fits
    · rw [if_neg fits]
      exact (if_neg fun below => fits (Nat.lt_of_le_of_lt step below)).symm

theorem parseDigits_of_mem (isIn : c ∈ digits) (notUnderscore : c ≠ 95)
    (noDigit : charToDigit base c = none) :
    parseDigits limit base negative value digits = none := by
  induction digits generalizing value with
  | nil => exact absurd isIn not_mem_nil
  | cons d digits ih =>
    rw [parseDigits]
    rcases mem_cons.mp isIn with rfl | isLater
    · rw [if_neg notUnderscore, noDigit]
    · by_cases isUnderscore : d = 95
      · rw [if_pos isUnderscore]
        exact ih isLater
      · rw [if_neg isUnderscore]
        cases charToDigit base d with
        | none => rfl
        | some digit =>
          simp only
          split_ifs
          · exact ih isLater
          · rfl
          · exact ih isLater
          · rfl

/-- A text that does not start with a sign is read without one. -/
theorem parseInt_cons (notPlus : d ≠ 43) (notMinus : d ≠ 45) :
    Tar.parseInt limit base (d :: digits) = parseIntWithSign limit base false (d :: digits) := by
  rw [Tar.parseInt]
  · exact cons_ne_nil d digits
  · rintro tail ⟨rfl, rfl⟩
    exact notPlus rfl
  · rintro tail ⟨rfl, rfl⟩
    exact notMinus rfl

section

variable (numeral : IsNumeral base digits value) (small : base ≤ 10)
include numeral small

theorem IsNumeral.parseInt_eq :
    Tar.parseInt limit base digits = parseDigits limit base false 0 digits := by
  have digitNe (c : UInt8) (isOther : c.toNat < 48 ∨ 58 ≤ c.toNat) : c ∉ digits := by
    intro isIn
    have := numeral.digit c isIn
    omega
  have noUnderscore : ¬ (digits.head? = some 95 ∨ digits.getLast? = some 95) := by
    rintro (isHead | isLast)
    · exact digitNe 95 (by decide) (mem_of_mem_head? isHead)
    · exact digitNe 95 (by decide) (mem_of_mem_getLast? isLast)
  have parsed : parseIntWithSign limit base false digits = parseDigits limit base false 0
      digits := by
    rw [parseIntWithSign, if_neg numeral.nonempty, if_neg noUnderscore]
  cases digits with
  | nil => exact absurd rfl numeral.nonempty
  | cons d rest =>
    rw [parseInt_cons, parsed]
    · rintro rfl
      exact digitNe 43 (by decide) mem_cons_self
    · rintro rfl
      exact digitNe 45 (by decide) mem_cons_self

/-- A number that fits is read. -/
theorem IsNumeral.parseInt (positive : 0 < base)
    (fits : value < limit) : Tar.parseInt limit base digits = some value := by
  rw [numeral.parseInt_eq small, parseDigits_eq small positive numeral.digit (by omega),
    numeral.value, if_pos fits]

/-- A number that does not fit is refused. -/
theorem IsNumeral.parseInt_overflow (positive : 0 < base) (someFit : 0 < limit)
    (overflows : limit ≤ value) : Tar.parseInt limit base digits = none := by
  rw [numeral.parseInt_eq small, parseDigits_eq small positive numeral.digit someFit,
    numeral.value, if_neg (Nat.not_lt.mpr overflows)]

end

end Numerals

section Splitting

/-- The bytes up to the first occurrence of one. -/
theorem takeWhile_ne_append {first : Bytes} (notIn : c ∉ first) (rest : Bytes) :
    (first ++ c :: rest).takeWhile (fun d => decide (d ≠ c)) = first := by
  rw [takeWhile_append_of_pos, takeWhile_cons_of_neg (by simp), append_nil]
  exact fun d isIn => decide_eq_true fun same => notIn (same ▸ isIn)

theorem dropWhile_ne_append {first : Bytes} (notIn : c ∉ first) (rest : Bytes) :
    (first ++ c :: rest).dropWhile (fun d => decide (d ≠ c)) = c :: rest := by
  rw [dropWhile_append_of_pos, dropWhile_cons_of_neg (by simp)]
  exact fun d isIn => decide_eq_true fun same => notIn (same ▸ isIn)

end Splitting

section Headers

/-- The bytes before the first NUL. -/
def untilNul (field : Bytes) : Bytes :=
  field.takeWhile (· ≠ 0)

variable (header : Bytes)

/-- A field of a header block. -/
def field (offset length : Nat) : Bytes :=
  (header.drop offset).take length

/-- `TarHeader.getName`. -/
def getName : Bytes :=
  let start := untilNul (field header 345 155)
  let name := untilNul (field header 0 100)
  if start ≠ [] then start ++ 47 :: name else name

/-- `TarHeader.getSize`. -/
def getSize : Option Nat :=
  parseInt (2 ^ 64) 8 (trimEnd (field header 124 12))

/-- `TarHeader.getMode`. -/
def getMode : Option Nat :=
  parseInt (2 ^ 32) 8 (trimEnd (field header 100 8))

def typeflag : UInt8 :=
  header.getD 156 0

def linkname : Bytes :=
  untilNul (field header 157 100)

/-- `Entry.Type`. -/
inductive EntryType where
  | file
  | directory
  | symlink
deriving DecidableEq, Repr

/-- The supported types: `isFile`, `isDirectory` and `isSymlink`. -/
def entryType : Option EntryType :=
  if typeflag header = 48 ∨ typeflag header = 0 then some .file
  else if typeflag header = 53 then some .directory
  else if typeflag header = 50 then some .symlink
  else none

end Headers

section Paths

/-- The segments of a path, with the one that has been begun. -/
def segmentsFrom : Bytes → Bytes → List Bytes
  | segment, [] => [segment]
  | segment, c :: rest =>
    if c = 47 then segment :: segmentsFrom [] rest else segmentsFrom (segment ++ [c]) rest

/-- The segments between the slashes. -/
def segments (path : Bytes) : List Bytes :=
  segmentsFrom [] path

/-- What a segment means to the file system. -/
def segmentStep (segment : Bytes) : Files.Step Bytes :=
  if segment = [] ∨ segment = [46] then .stay
  else if segment = [46, 46] then .up
  else .down segment

/-- What a path means to the file system. -/
def toPath (path : Bytes) : Files.Path Bytes where
  rooted := path.head? = some 47
  steps := (segments path).map segmentStep

/-- The loop of `validateBadCharsAndTraversal`, with the segment that has been begun. -/
def validateSegments : Bytes → Bytes → Bool
  | segment, [] => segment ≠ [46, 46]
  | segment, c :: rest =>
    if c = 0 ∨ c = 92 ∨ c < 32 then false
    else if c = 47 then
      if segment = [46, 46] then false else validateSegments [] rest
    else validateSegments (segment ++ [c]) rest

/-- `validatePath`, on a system other than Windows. -/
def validatePath (path : Bytes) : Bool :=
  if path.length = 0 ∨ 4096 < path.length then false
  else if path.head? = some 47 then false
  else validateSegments [] path

/-- `std.fs.path.dirname` of a relative path, in segments: without the slashes at the
end and the last segment before them. -/
def dirname (path : Bytes) : Option (List Bytes) :=
  let parents := ((segments path).reverse.dropWhile (· = [])).reverse.dropLast
  if parents = [] then none else some parents

theorem notIn_segmentsFrom {segment rest : Bytes} (valid : validateSegments segment rest = true) :
    [46, 46] ∉ segmentsFrom segment rest := by
  induction rest generalizing segment with
  | nil =>
    have notUp : segment ≠ [46, 46] := by simpa [validateSegments] using valid
    simpa [segmentsFrom] using notUp.symm
  | cons c rest ih =>
    rw [validateSegments] at valid
    rw [segmentsFrom]
    split_ifs at valid ⊢ with bad isSlash isUp
    · rw [mem_cons, not_or]
      exact ⟨Ne.symm isUp, ih valid⟩
    · exact ih valid

theorem segmentStep_ne_up {segment : Bytes} (notUp : segment ≠ [46, 46]) :
    segmentStep segment ≠ .up := by
  unfold segmentStep
  split_ifs <;> simp

theorem descends_of_notIn {parts : List Bytes} (notIn : [46, 46] ∉ parts) :
    Files.Descends (parts.map segmentStep) := by
  intro isIn
  obtain ⟨segment, segmentIn, isUp⟩ := mem_map.mp isIn
  refine segmentStep_ne_up ?_ isUp
  rintro rfl
  exact notIn segmentIn

/-- An accepted path leads inward. -/
theorem inward_of_validatePath {path : Bytes} (valid : validatePath path = true) :
    (toPath path).Inward := by
  unfold validatePath at valid
  split_ifs at valid with badLength isRooted
  exact ⟨by simpa [toPath] using isRooted, descends_of_notIn (notIn_segmentsFrom valid)⟩

/-- And so does the path of its directory. -/
theorem descends_dirname {path : Bytes} {parents : List Bytes} (valid : validatePath path = true)
    (isDirname : dirname path = some parents) :
    Files.Descends (parents.map segmentStep) := by
  unfold validatePath at valid
  split_ifs at valid with badLength isRooted
  apply descends_of_notIn
  unfold dirname at isDirname
  simp only at isDirname
  split_ifs at isDirname
  obtain rfl := Option.some.inj isDirname
  intro isIn
  have inTrimmed := (dropLast_sublist _).subset isIn
  rw [mem_reverse] at inTrimmed
  have inSegments := (dropWhile_sublist _).subset inTrimmed
  rw [mem_reverse] at inSegments
  exact notIn_segmentsFrom valid inSegments

end Paths

end AntRuntime.Tar
