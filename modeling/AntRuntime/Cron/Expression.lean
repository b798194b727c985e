import AntRuntime.Bytes.Words
import AntRuntime.Calendar.Gregorian
import Mathlib.Data.Nat.Bitwise

/-!
# Cron expressions

The parser of cron expressions and the test of a civil time against one. The five fields
become sets of numbers, kept as the bits of a word; an accepted expression names a minute
and an hour.
-/

namespace AntRuntime.Cron

open Option

variable (text : List UInt8)

/-- `cron_expression_t`. The wildcards of the minute and the hour say that the set is full;
those of the day and the weekday, that the field is an asterisk. -/
structure Expression where
  minutes : Nat
  hours : Nat
  days : Nat
  months : Nat
  weekdays : Nat
  minuteWildcard : Bool
  hourWildcard : Bool
  dayWildcard : Bool
  weekdayWildcard : Bool
  deriving DecidableEq, Repr

/-- `cron_fields_t`. -/
structure Fields where
  year : Int
  month : Nat
  day : Nat
  hour : Nat
  minute : Nat
  weekday : Nat
  deriving DecidableEq, Repr

/-- What the parser reports. -/
inductive ParseError
  | invalidField (text : List UInt8)
  | fieldCount
  deriving DecidableEq, Repr

/-! ## Characters -/

/-- `isspace`. -/
def isSpace (c : UInt8) : Bool :=
  c = 32 || (9 ≤ c && c ≤ 13)

/-- `isdigit`. -/
def isDigit (c : UInt8) : Bool :=
  48 ≤ c && c ≤ 57

/-- `tolower`. -/
def toLower (c : UInt8) : UInt8 :=
  if 65 ≤ c ∧ c ≤ 90 then c + 32 else c

/-- `isalpha`. -/
def isAlpha (c : UInt8) : Bool :=
  97 ≤ toLower c && toLower c ≤ 122

/-- `cron_ascii_equal`. -/
def asciiEqual (value name : List UInt8) : Bool :=
  value.map toLower = name.map toLower

/-! ## Values -/

/-- `month_names`. -/
def monthNames : List (List UInt8) :=
  ["january", "february", "march", "april", "may", "june", "july", "august", "september",
    "october", "november", "december"].map Bytes.ofAscii

/-- `weekday_names`. -/
def weekdayNames : List (List UInt8) :=
  ["sunday", "monday", "tuesday", "wednesday", "thursday", "friday", "saturday"].map
    Bytes.ofAscii

/-- The names that a field takes beside numbers. -/
inductive NameKind
  | numbers
  | months
  | weekdays
  deriving DecidableEq

/-- `cron_parse_named_value`: a name in full, or its first three letters. -/
def parseNamedValue (names : List (List UInt8)) : Option Nat :=
  names.findIdx? fun name =>
    asciiEqual text name || (text.length = 3 && asciiEqual text (name.take 3))

/-- The digits of `cron_parse_value`, after some of them. The bound is tested before each
digit is taken; where the source divides a negative number, the quotient is zero. -/
def parseDigits (maximum : Nat) : Nat → List UInt8 → Option Nat
  | value, [] => some value
  | value, c :: rest =>
    if !isDigit c then none
    else if (maximum - (c.toNat - 48)) / 10 < value then none
    else parseDigits maximum (value * 10 + (c.toNat - 48)) rest

/-- The number of `cron_parse_value`. -/
def parseNumber (minimum maximum : Nat) : Option Nat :=
  (parseDigits maximum 0 text).filter fun value => minimum ≤ value && value ≤ maximum

/-- `cron_parse_value` behind the sign. -/
def parseUnsigned (minimum maximum : Nat) (kind : NameKind) : Option Nat :=
  match text with
  | [] => none
  | c :: _ =>
    match kind with
    | .numbers => parseNumber text minimum maximum
    | .months =>
      if isAlpha c then (parseNamedValue text monthNames).map (· + 1)
      else parseNumber text minimum maximum
    | .weekdays =>
      if isAlpha c then parseNamedValue text weekdayNames
      else parseNumber text minimum maximum

/-- `cron_parse_value`. -/
def parseValue (minimum maximum : Nat) (kind : NameKind) : Option Nat :=
  parseUnsigned (if text.head? = some 43 then text.tail else text) minimum maximum kind

/-! ## Fields -/

/-- A text at the first occurrence of a separator. -/
def cut (separator : UInt8) (text : List UInt8) : List UInt8 × Option (List UInt8) :=
  (text.takeWhile (· != separator), (text.dropWhile (· != separator)).tail?)

/-- `cron_set_bit`. -/
def setBit (kind : NameKind) (bits value : Nat) : Nat :=
  bits ||| 1 <<< (if kind = .weekdays ∧ value = 7 then 0 else value)

/-- The bounds of an item, given what is before its slash. -/
def parseRange (base : List UInt8) (stepped : Bool) (minimum maximum : Nat)
    (kind : NameKind) : Option (Nat × Nat) :=
  if base = [42] then some (minimum, maximum)
  else
    match cut 45 base with
    | (start, some stop) => do
        let first ← parseValue start minimum maximum kind
        let last ← parseValue stop minimum maximum kind
        if last < first then none else some (first, last)
    | (_, none) => do
        let first ← parseValue base minimum maximum kind
        some (first, if stepped then maximum else first)

/-- The step of an item, given what is behind its slash. -/
def parseStep : Option (List UInt8) → Option Nat
  | none => some 1
  | some text => parseValue text 1 127 .numbers

/-- One item of `cron_parse_field`: every `step`-th number of its range is set. -/
def parseItem
    (minimum maximum : Nat) (kind : NameKind) (bits : Nat)
    (item : List UInt8) : Option Nat := do
  let (base, behind) := cut 47 item
  let step ← parseStep behind
  let (first, last) ← parseRange base behind.isSome minimum maximum kind
  some ((List.range' first ((last - first) / step + 1) step).foldl (setBit kind) bits)

/-- `cron_parse_field`: the items between commas, none of them empty. -/
def parseField (minimum maximum : Nat) (kind : NameKind) : Except ParseError Nat :=
  let items := text.splitOn 44
  if items.any List.isEmpty then .error (.invalidField text)
  else
    match items.foldlM (parseItem minimum maximum kind) 0 with
    | none => .error (.invalidField text)
    | some bits => if bits = 0 then .error (.invalidField text) else .ok bits

/-- The wildcard that `cron_parse_field` reports. -/
def isWildcard : Bool :=
  text = [42]

/-! ## Expressions -/

/-- `cron_expand_nickname`. -/
def expandNickname (source : List UInt8) : Option (List UInt8) :=
  if asciiEqual source (Bytes.ofAscii "@yearly") || asciiEqual source (Bytes.ofAscii "@annually")
  then some (Bytes.ofAscii "0 0 1 1 *")
  else if asciiEqual source (Bytes.ofAscii "@monthly") then some (Bytes.ofAscii "0 0 1 * *")
  else if asciiEqual source (Bytes.ofAscii "@weekly") then some (Bytes.ofAscii "0 0 * * 0")
  else if asciiEqual source (Bytes.ofAscii "@daily") ||
    asciiEqual source (Bytes.ofAscii "@midnight")
  then some (Bytes.ofAscii "0 0 * * *")
  else if asciiEqual source (Bytes.ofAscii "@hourly") then some (Bytes.ofAscii "0 * * * *")
  else none

/-- A text without the blanks around it. -/
def trim (source : List UInt8) : List UInt8 :=
  ((source.dropWhile isSpace).reverse.dropWhile isSpace).reverse

/-- The runs of a text between blanks. -/
def splitFields (source : List UInt8) : List (List UInt8) :=
  (source.splitOnP isSpace).filter fun field => !field.isEmpty

/-- `cron_parse_expression`. -/
def parseExpression (source : List UInt8) : Except ParseError Expression :=
  let trimmed := trim source
  match splitFields ((expandNickname trimmed).getD trimmed) with
  | [minute, hour, day, month, weekday] => do
      let minutes ← parseField minute 0 59 .numbers
      let hours ← parseField hour 0 23 .numbers
      let days ← parseField day 1 31 .numbers
      let months ← parseField month 1 12 .months
      let weekdays ← parseField weekday 0 7 .weekdays
      .ok {
        minutes
        hours := hours % 2 ^ 32
        days := days % 2 ^ 32
        months := months % 2 ^ 16
        weekdays := weekdays % 2 ^ 8
        minuteWildcard := minutes = 2 ^ 60 - 1
        hourWildcard := hours % 2 ^ 32 = 2 ^ 24 - 1
        dayWildcard := isWildcard day
        weekdayWildcard := isWildcard weekday }
  | _ => .error .fieldCount

/-! ## Matching -/

/-- A number is in a set of bits. -/
def hasBit (bits value : Nat) : Bool :=
  bits &&& 1 <<< value != 0

/-- The rule for the day of the month and the day of the week: if both are restricted, one
of them is enough. -/
def dayMatches (expression : Expression) (fields : Fields) : Bool :=
  let dayMatch := hasBit expression.days fields.day
  let weekdayMatch := hasBit expression.weekdays fields.weekday
  if !expression.dayWildcard && !expression.weekdayWildcard then dayMatch || weekdayMatch
  else if !expression.dayWildcard then dayMatch
  else if !expression.weekdayWildcard then weekdayMatch
  else true

/-- `cron_matches`. -/
def cronMatches (expression : Expression) (fields : Fields) : Bool :=
  if !hasBit expression.minutes fields.minute || !hasBit expression.hours fields.hour ||
    !hasBit expression.months fields.month
  then false
  else dayMatches expression fields

/-- `cron_date_matches`. -/
def cronDateMatches (expression : Expression) (fields : Fields) : Bool :=
  if !hasBit expression.months fields.month then false
  else dayMatches expression fields

/-- A time matches by its date, its hour and its minute. -/
theorem cronMatches_eq (expression : Expression) (fields : Fields) :
    cronMatches expression fields =
      (cronDateMatches expression fields && hasBit expression.hours fields.hour &&
        hasBit expression.minutes fields.minute) := by
  rw [cronMatches, cronDateMatches]
  cases hasBit expression.minutes fields.minute <;>
    cases hasBit expression.hours fields.hour <;>
    cases hasBit expression.months fields.month <;> simp

/-- `cron_is_leap_year`. -/
def isLeapYear (year : Int) : Bool :=
  year.tmod 4 = 0 && (year.tmod 100 != 0 || year.tmod 400 = 0)

/-- `cron_days_in_month`. -/
def daysInMonth (year : Int) (month : Nat) : Nat :=
  if month = 2 && isLeapYear year then 29
  else [31, 28, 31, 30, 31, 30, 31, 31, 30, 31, 30, 31].getD (month - 1) 0

/-- `cron_advance_day`. -/
def advanceDay (fields : Fields) : Fields :=
  let advanced := { fields with day := fields.day + 1, weekday := (fields.weekday + 1) % 7 }
  if advanced.day ≤ daysInMonth fields.year fields.month then advanced
  else if fields.month + 1 ≤ 12 then { advanced with day := 1, month := fields.month + 1 }
  else { advanced with day := 1, month := 1, year := fields.year + 1 }

/-! ## What an accepted expression names -/

theorem hasBit_eq_testBit (bits value : Nat) : hasBit bits value = bits.testBit value := by
  rw [hasBit, Nat.one_shiftLeft, Nat.and_two_pow]
  cases bits.testBit value <;> simp

theorem testBit_setBits_of_testBit
    (kind : NameKind) (values : List Nat) (inBits : bits.testBit other = true) :
    (values.foldl (setBit kind) bits).testBit other = true := by
  induction values generalizing bits with
  | nil => exact inBits
  | cons value values ih => exact ih (by simp [setBit, inBits])

theorem parseValue_bounds
    {text : List UInt8} (parsed : parseValue text minimum maximum .numbers = some value) :
    minimum ≤ value ∧ value ≤ maximum := by
  rw [parseValue, parseUnsigned.eq_def] at parsed
  split at parsed
  · cases parsed
  · simpa using (filter_eq_some_iff.mp parsed).2

/-- The first number of an item is in the bounds of its field. -/
theorem parseRange_bounds
    {base : List UInt8} {range : Nat × Nat}
    (ordered : minimum ≤ maximum)
    (parsed : parseRange base stepped minimum maximum .numbers = some range) :
    minimum ≤ range.1 ∧ range.1 ≤ maximum := by
  rw [parseRange] at parsed
  split at parsed
  · cases parsed
    exact ⟨le_refl _, ordered⟩
  · split at parsed
    · obtain ⟨first, firstParsed, rest⟩ := bind_eq_some_iff.mp parsed
      obtain ⟨last, -, rest⟩ := bind_eq_some_iff.mp rest
      split at rest
      · cases rest
      · cases rest
        exact parseValue_bounds firstParsed
    · obtain ⟨first, firstParsed, rest⟩ := bind_eq_some_iff.mp parsed
      cases rest
      exact parseValue_bounds firstParsed

/-- An item sets a number in the bounds of its field and clears none. -/
theorem parseItem_spec {item : List UInt8} (ordered : minimum ≤ maximum)
    (parsed : parseItem minimum maximum .numbers bits item = some result) :
    (∃ value, minimum ≤ value ∧ value ≤ maximum ∧ result.testBit value = true) ∧
      ∀ value, bits.testBit value = true → result.testBit value = true := by
  obtain ⟨step, -, rest⟩ := bind_eq_some_iff.mp parsed
  obtain ⟨⟨first, last⟩, range, rest⟩ := bind_eq_some_iff.mp rest
  cases rest
  refine ⟨⟨first, (parseRange_bounds ordered range).1, (parseRange_bounds ordered range).2, ?_⟩,
    fun value inBits => testBit_setBits_of_testBit _ _ inBits⟩
  rw [List.range'_succ, List.foldl_cons]
  exact testBit_setBits_of_testBit _ _ (by simp [setBit])

theorem parseItems_spec {items : List (List UInt8)} (ordered : minimum ≤ maximum)
    (parsed : items.foldlM (parseItem minimum maximum .numbers) bits = some result)
    (named : items ≠ [] ∨ ∃ value, minimum ≤ value ∧ value ≤ maximum ∧ bits.testBit value = true) :
    ∃ value, minimum ≤ value ∧ value ≤ maximum ∧ result.testBit value = true := by
  induction items generalizing bits with
  | nil =>
    cases parsed
    exact named.resolve_left (· rfl)
  | cons item items ih =>
    obtain ⟨next, itemParsed, rest⟩ := bind_eq_some_iff.mp parsed
    exact ih rest (.inr (parseItem_spec ordered itemParsed).1)

/-- An accepted field names a number in its bounds. -/
theorem parseField_spec
    {text : List UInt8} (ordered : minimum ≤ maximum)
    (parsed : parseField text minimum maximum .numbers = .ok bits) :
    ∃ value, minimum ≤ value ∧ value ≤ maximum ∧ bits.testBit value = true := by
  rw [parseField] at parsed
  split at parsed
  · cases parsed
  · split at parsed
    · cases parsed
    · next found =>
      split at parsed
      · cases parsed
      · cases parsed
        exact parseItems_spec ordered found (.inl (List.splitOn_ne_nil 44 text))

theorem bind_eq_ok {ε α β : Type} {first : Except ε α} {rest : α → Except ε β} {result : β}
    (succeeded : first >>= rest = .ok result) :
    ∃ value, first = .ok value ∧ rest value = .ok result := by
  cases first with
  | error message => cases succeeded
  | ok value => exact ⟨value, rfl, succeeded⟩

/-- An accepted expression names an hour and a minute. -/
theorem parseExpression_spec {source : List UInt8} {expression : Expression}
    (accepted : parseExpression source = .ok expression) :
    (∃ hour < 24, hasBit expression.hours hour = true) ∧
      ∃ minute < 60, hasBit expression.minutes minute = true := by
  simp only [hasBit_eq_testBit]
  rw [parseExpression] at accepted
  split at accepted
  · obtain ⟨minutes, minutesParsed, accepted⟩ := bind_eq_ok accepted
    obtain ⟨hours, hoursParsed, accepted⟩ := bind_eq_ok accepted
    obtain ⟨days, -, accepted⟩ := bind_eq_ok accepted
    obtain ⟨months, -, accepted⟩ := bind_eq_ok accepted
    obtain ⟨weekdays, -, accepted⟩ := bind_eq_ok accepted
    cases accepted
    obtain ⟨hour, -, hourLe, hourSet⟩ := parseField_spec (by decide) hoursParsed
    obtain ⟨minute, -, minuteLe, minuteSet⟩ := parseField_spec (by decide) minutesParsed
    -- the cast to the word of the hours keeps its low bits
    have hourKept : (hours % 2 ^ 32).testBit hour = true := by
      rw [Nat.testBit_mod_two_pow, hourSet]
      simp only [Bool.and_true, decide_eq_true_eq]
      omega
    exact ⟨⟨hour, Nat.lt_succ_of_le hourLe, hourKept⟩,
      ⟨minute, Nat.lt_succ_of_le minuteLe, minuteSet⟩⟩
  · cases accepted

end AntRuntime.Cron
