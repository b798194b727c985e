import AntRuntime.Strings.Model

/-!
# Exporting strings as UTF-8

The general export joins surrogate pairs and replaces what is not UTF-8. A valid string is
copied, up to a cut that is moved back to the start of a sequence. Both write the same bytes.
-/

namespace AntRuntime.Strings

open List

/-- The first bytes in `utf8_validate_bytes`: how many bytes follow, and the bounds of the next. -/
def leadClass (c : Nat) : Option (Nat × Nat × Nat) :=
  if 0xC2 ≤ c ∧ c ≤ 0xDF then some (1, 0x80, 0xBF)
  else if c = 0xE0 then some (2, 0xA0, 0xBF)
  else if 0xE1 ≤ c ∧ c ≤ 0xEC then some (2, 0x80, 0xBF)
  else if c = 0xED then some (2, 0x80, 0x9F)
  else if c = 0xEE ∨ c = 0xEF then some (2, 0x80, 0xBF)
  else if c = 0xF0 then some (3, 0x90, 0xBF)
  else if 0xF1 ≤ c ∧ c ≤ 0xF3 then some (3, 0x80, 0xBF)
  else if c = 0xF4 then some (3, 0x80, 0x8F)
  else none

/-- One round of `utf8_validate_bytes`: the bytes of the sequence it passes over. -/
def sequenceAt : Bytes → Option Nat
  | [] => none
  | c :: tail =>
    if c < 0x80 then some 1
    else
      (leadClass c).bind fun (cont, lo, hi) =>
        if tail.length < cont then none
        else if tail.getD 0 0 < lo ∨ tail.getD 0 0 > hi then none
        else if (range cont).any fun i => 0 < i ∧ (tail.getD i 0 < 0x80 ∨ tail.getD i 0 > 0xBF) then
          none
        else some (cont + 1)

/-- `utf8_validate_bytes`. -/
def utf8ValidateBytes : Nat → Bytes → Bool
  | _, [] => true
  | 0, _ => false
  | fuel + 1, bytes => (sequenceAt bytes).any fun n => utf8ValidateBytes fuel (bytes.drop n)

/-- `str_is_valid_utf8`. -/
def isValidUtf8 (str : Bytes) : Bool :=
  isAscii str || utf8ValidateBytes str.length str

/-- `utf8_wtf8_surrogate_at`. -/
def surrogateAt : Bytes → Option Nat
  | b0 :: b1 :: b2 :: _ =>
    if b0 ≠ 0xED ∨ b1 / 0x20 ≠ 0xA0 / 0x20 ∨ b2 / 0x40 ≠ 0x80 / 0x40 then none
    else
      let out := b0 % 0x10 * 0x1000 + b1 % 0x40 * 0x40 + b2 % 0x40
      if 0xD800 ≤ out ∧ out ≤ 0xDFFF then some out else none
  | _ => none

/-- A byte that does not start a sequence. -/
def continues (b : Nat) : Bool :=
  b / 0x40 = 0x80 / 0x40

/-- The loop of `utf8_export_into` that moves a cut back to the start of a sequence. -/
def backOff (str : Bytes) : Nat → Nat
  | 0 => 0
  | len + 1 => if continues (str.getD (len + 1) 0) then backOff str len else len + 1

/-- U+FFFD. -/
def replacement : Bytes := [0xEF, 0xBF, 0xBD]

section

-- utf8proc_iterate: the length of the first sequence and its code point, if valid; and
-- utf8proc_encode_char, which utf8_encode calls
variable (iterate : Bytes → Option (Nat × Nat)) (utf8Encode : Nat → Bytes)

/-- One round of `utf8_export_wtf8`: the piece, the bytes it stands for and its code units. -/
def exportPiece (bytes : Bytes) : Bytes × Nat × Nat :=
  match surrogateAt bytes with
  | some first =>
    match surrogateAt (bytes.drop 3) with
    | some second =>
      if first ≤ 0xDBFF ∧ 0xDC00 ≤ second then
        (utf8Encode (joinSurrogates first second), 6, 2)
      else (replacement, 3, 1)
    | none => (replacement, 3, 1)
  | none =>
    match iterate bytes with
    | some (n, cp) => (bytes.take n, n, if 0x10000 ≤ cp then 2 else 1)
    | none => (replacement, 1, 1)

/-- `utf8_export_wtf8` with room for `room` bytes: what it writes and the code units read. -/
def exportWtf8 : Nat → Bytes → Nat → Bytes × Nat
  | _, [], _ => ([], 0)
  | 0, _, _ => ([], 0)
  | fuel + 1, bytes, room =>
    let (piece, consumed, units) := exportPiece iterate utf8Encode bytes
    if piece.length > room then ([], 0)
    else
      let (written, readUnits) := exportWtf8 fuel (bytes.drop consumed) (room - piece.length)
      (piece ++ written, units + readUnits)

/-- `utf8_export_into`. -/
def exportInto (str : Bytes) (dstLen : Nat) : Bytes × Nat :=
  if str.length = 0 then ([], 0)
  else if !isValidUtf8 str then exportWtf8 iterate utf8Encode str.length str dstLen
  else
    let len := if str.length < dstLen then str.length else dstLen
    let len := if len < str.length then backOff str len else len
    (str.take len, utf16Strlen (str.take len) len ⟨0, 0⟩)

/-- What `utf8proc_iterate` answers to a valid sequence: length and code point. -/
def IteratesSequences : Prop :=
  ∀ bytes n, sequenceAt bytes = some n →
    ∃ cp, iterate bytes = some (n, cp) ∧ (0x10000 ≤ cp ↔ n = 4)

end

/-- What the rounds of both loops find at a valid sequence of `n` bytes. -/
structure StartsWith (n first : Nat) (tail : Bytes) : Prop where
  positive : 0 < n
  length_le : n ≤ tail.length + 1
  scanned : scanDecode first = (n, if n = 4 then 2 else 1)
  starts : continues first = false
  goesOn : ∀ i, i + 1 < n → continues (tail.getD i 0) = true
  notSurrogate : surrogateAt (first :: tail) = none

theorem leadClass_spec (known : leadClass c = some (cont, lo, hi)) :
    scanDecode c = (cont + 1, if cont + 1 = 4 then 2 else 1) ∧ 0xC0 ≤ c ∧ 0x80 ≤ lo ∧ hi ≤ 0xBF ∧
      (c = 0xED → hi = 0x9F) ∧ cont ≤ 3 := by
  unfold leadClass at known
  split_ifs at known <;> cases known <;> (unfold scanDecode; grind)

theorem startsWith_of_sequenceAt {tail : Bytes}
    (found : sequenceAt (first :: tail) = some n) : StartsWith n first tail := by
  rw [sequenceAt] at found
  by_cases ascii : first < 0x80
  · rw [if_pos ascii] at found
    cases found
    constructor <;> grind [continues, scanDecode, surrogateAt.eq_def]
  · rw [if_neg ascii, Option.bind_eq_some_iff] at found
    obtain ⟨⟨cont, lo, hi⟩, lead, found⟩ := found
    obtain ⟨scanned, large, low, high, surrogate⟩ := leadClass_spec lead
    simp only [ite_eq_iff, reduceCtorEq, and_false, false_or, Option.some.injEq, any_eq_true,
      mem_range, decide_eq_true_eq, not_exists, not_and, not_or, not_lt] at found
    obtain ⟨enough, inRange, others, rfl⟩ := found
    constructor <;> grind [continues, surrogateAt.eq_def]

variable {iterate : Bytes → Option (Nat × Nat)} {utf8Encode : Nat → Bytes} {bytes : Bytes}

theorem utf16Strlen_atEnd {str : Bytes} (atEnd : str.drop p = []) :
    utf16Strlen str scans ⟨p, u⟩ = u := by
  cases scans with
  | zero => rfl
  | succ scans => rw [utf16Strlen, atEnd]

/-- Where a cut at the limit is moved to. -/
structure IsCut (bytes : Bytes) (limit cut : Nat) : Prop where
  le : cut ≤ limit
  starts : continues (bytes.getD cut 0) = false
  inside : ∀ i, cut < i → i ≤ limit → continues (bytes.getD i 0) = true

theorem IsCut.backOff_eq (isCut : IsCut bytes limit cut) :
    backOff bytes limit = cut := by
  obtain ⟨le, starts, inside⟩ := isCut
  fun_induction backOff bytes limit with
  | case1 => exact (Nat.le_zero.mp le).symm
  | case2 limit goesOn ih => exact ih (by grind) fun i above below => inside i above (by omega)
  | case3 limit stops => grind

/-- The general export of a valid string stops at the cut and counts the code units up to it. -/
theorem exportWtf8_eq (iterates : IteratesSequences iterate)
    (valid : utf8ValidateBytes fuel bytes = true) (room : Nat) :
    ∃ cut units, IsCut bytes (min bytes.length room) cut ∧
      exportWtf8 iterate utf8Encode fuel bytes room = (bytes.take cut, units) ∧
      ∀ str p u more, str.drop p = bytes.take cut →
        utf16Strlen str (cut + more) ⟨p, u⟩ = u + units := by
  fun_induction utf8ValidateBytes fuel bytes generalizing room with
  | case1 fuel =>
    refine ⟨0, 0, ⟨by simp, rfl, by simp; omega⟩, ?_, fun _ _ _ _ => utf16Strlen_atEnd⟩
    cases fuel <;> rfl
  | case2 => cases valid
  | case3 fuel bytes nonempty ih =>
    cases bytes with
    | nil => cases nonempty rfl
    | cons first tail =>
      rw [Option.any_eq_true] at valid
      obtain ⟨n, found, valid⟩ := valid
      obtain ⟨cp, iterated, supplementary⟩ := iterates _ n found
      obtain ⟨positive, enough, scanned, starts, goesOn, notSurrogate⟩ :=
        startsWith_of_sequenceAt found
      have length : ((first :: tail).take n).length = n := length_take_of_le enough
      simp only [exportWtf8, exportPiece, notSurrogate, iterated, supplementary, length]
      by_cases fits : n ≤ room
      · obtain ⟨cut, units, ⟨le, atCut, inside⟩, exported, counted⟩ := ih n valid (room - n)
        simp only [length_drop, length_cons, getD_eq_getElem?_getD, getElem?_drop]
          at le atCut inside
        rw [if_neg (by omega), exported, ← take_add]
        refine ⟨n + cut, _, ⟨?_, ?_, fun i above below => ?_⟩, rfl, fun str p u more here => ?_⟩
        · grind
        · rwa [getD_eq_getElem?_getD]
        · rw [length_cons] at below
          have isIn := inside (i - n) (by omega) (by omega)
          rwa [Nat.add_sub_cancel' (by omega)] at isIn
        · have later : str.drop (p + n) = ((first :: tail).drop n).take cut := by
            rw [← drop_drop, here, drop_take, Nat.add_sub_cancel_left]
          rw [take_cons (by omega)] at here
          rw [show n + cut + more = cut + (n - 1 + more) + 1 by omega, utf16Strlen, here]
          simp only [scanned]
          exact (counted str _ _ _ later).trans (Nat.add_assoc ..)
      · rw [if_pos (by omega)]
        refine ⟨0, 0, ⟨Nat.zero_le _, starts, fun i above below => ?_⟩, rfl,
          fun _ _ _ _ => utf16Strlen_atEnd⟩
        cases i with
        | zero => cases above
        | succ i => exact goesOn i (by omega)

theorem utf8ValidateBytes_of_isAscii {str : Bytes} (ascii : isAscii str = true) :
    utf8ValidateBytes str.length str = true := by
  induction str with
  | nil => rfl
  | cons first tail ih =>
    simp only [isAscii, all_cons, Bool.and_eq_true, decide_eq_true_eq] at ascii
    simpa [utf8ValidateBytes, sequenceAt, ascii.1] using ih ascii.2

/-- `utf8_export_into` agrees with the general export on valid strings and splits no character. -/
theorem exportInto_eq (iterates : IteratesSequences iterate) (str : Bytes) (dstLen : Nat)
    (valid : isValidUtf8 str = true) :
    exportInto iterate utf8Encode str dstLen =
        exportWtf8 iterate utf8Encode str.length str dstLen ∧
      ∃ cut, (exportInto iterate utf8Encode str dstLen).1 = str.take cut ∧
        continues (str.getD cut 0) = false := by
  have validated : utf8ValidateBytes str.length str = true :=
    (Bool.or_eq_true_iff.mp valid).elim utf8ValidateBytes_of_isAscii id
  obtain ⟨cut, units, isCut, exported, counted⟩ := exportWtf8_eq iterates validated dstLen
  have whole := counted (str.take cut) 0 0 0 rfl
  rw [Nat.zero_add] at whole
  rw [← whole] at exported
  have same : exportInto iterate utf8Encode str dstLen =
      exportWtf8 iterate utf8Encode str.length str dstLen := by
    have cut_eq := isCut.backOff_eq
    have atEnd : backOff str str.length = str.length := by
      cases str <;> simp [backOff, continues]
    rw [exportInto, valid, exported]
    split
    · simp_all [utf16Strlen_atEnd]
    · grind
  exact ⟨same, cut, by rw [same, exported], isCut.starts⟩

/-- `utf8proc_iterate` may be taken to decode with the bit patterns of `utf16_scan_decode`. -/
theorem iteratesSequences_scanCodePoint :
    IteratesSequences fun bytes => (sequenceAt bytes).map fun n =>
      (n, (scanCodePoint bytes).2.2) := by
  intro bytes n found
  simp only [found, Option.map_some]
  refine ⟨_, rfl, ?_⟩
  rcases bytes with _ | ⟨c, tail⟩
  · cases found
  · rw [sequenceAt] at found
    by_cases ascii : c < 0x80
    · grind [scanCodePoint.eq_def]
    · rw [if_neg ascii, Option.bind_eq_some_iff] at found
      obtain ⟨⟨cont, lo, hi⟩, lead, found⟩ := found
      unfold leadClass at lead
      split_ifs at lead <;> cases lead <;> rcases tail with _ | ⟨p1, _ | ⟨p2, _ | ⟨p3, tail⟩⟩⟩ <;>
        grind [scanCodePoint]

/-- An emoji, a euro sign and a letter, with room for the first two: three code units. -/
theorem exportInto_emoji_euro :
    exportInto (fun bytes => (sequenceAt bytes).map fun n => (n, (scanCodePoint bytes).2.2))
        Text.utf8Bytes [0xF0, 0x9F, 0x98, 0x80, 0xE2, 0x82, 0xAC, 0x41] 7 =
      ([0xF0, 0x9F, 0x98, 0x80, 0xE2, 0x82, 0xAC], 3) :=
  (exportInto_eq iteratesSequences_scanCodePoint _ 7 (by decide)).1.trans (by decide)

end AntRuntime.Strings
