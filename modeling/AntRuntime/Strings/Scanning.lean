import AntRuntime.Strings.Model

/-!
# What the byte loops compute

The loops walk over bytes; the bytes are the encoding of a text. Each loop is
described by what it does to that text, and slicing by the range of the text
between two places in code units.
-/

namespace AntRuntime.Strings

open List
open Text (Valid utf8 utf8Bytes utf16 width lowOf highOf)

section Ropes

/-- The bytes of a string, left to right. -/
def Str.bytes : Str → Bytes
  | .flat bytes => bytes
  | .rope _ left right => left.bytes ++ right.bytes

/-- Every rope node records the length of its bytes. -/
def Str.Sized : Str → Prop
  | .flat _ => True
  | .rope len left right => len = left.len + right.len ∧ left.Sized ∧ right.Sized

variable {l r : Str}

/-- The length noted in a sized string is the number of its bytes. -/
theorem Str.Sized.len_eq {str : Str} (sized : str.Sized) : str.len = str.bytes.length := by
  induction str with
  | flat bytes => rfl
  | rope len left right leftHypothesis rightHypothesis =>
    obtain ⟨lenEq, leftSized, rightSized⟩ := sized
    rw [Str.bytes, length_append, ← leftHypothesis leftSized, ← rightHypothesis rightSized]
    exact lenEq

/-- The number of nodes on the stack. -/
def stackNodes : List Str → Nat
  | [] => 0
  | str :: stack => str.nodes + stackNodes stack

/-- The parts on the stack end up before what is in the buffer. -/
theorem flattenInto_eq
    (fuel : Nat) (stack : List Str) (pos : Nat) (dest : Bytes) (enough : stackNodes stack ≤ fuel)
    (room : pos = (stack.flatMap Str.bytes).length) :
    flattenInto fuel stack pos dest = some ((stack.reverse.flatMap Str.bytes) ++ dest) := by
  induction fuel generalizing stack pos dest with
  | zero =>
    cases stack with
    | nil => simp [flattenInto, room]
    | cons str stack => cases str <;> simp [stackNodes, Str.nodes] at enough
  | succ fuel ih =>
    cases stack with
    | nil => simp [flattenInto, room]
    | cons str stack =>
      rw [flatMap_cons, length_append] at room
      cases str with
      | flat bytes =>
        simp only [stackNodes, Str.nodes, Str.bytes] at enough room
        rw [flattenInto, if_neg (by omega), ih stack _ _ (by omega) (by omega)]
        simp [Str.bytes]
      | rope len left right =>
        simp only [stackNodes, Str.nodes, Str.bytes, length_append] at enough room
        have nodes : stackNodes (right :: left :: stack) ≤ fuel := by
          simp only [stackNodes]
          omega
        have bytes : pos = ((right :: left :: stack).flatMap Str.bytes).length := by
          simp only [flatMap_cons, length_append]
          omega
        rw [flattenInto, ih _ _ _ nodes bytes]
        simp [Str.bytes]

/-- A sized string is read as its bytes. -/
theorem vstr_eq {str : Str} (sized : str.Sized) : vstr str = some str.bytes := by
  cases str with
  | flat bytes => rfl
  | rope len left right =>
    rw [vstr, flattenInto_eq]
    · simp
    · exact Nat.le_refl _
    · simpa using show len = _ from sized.len_eq

/-- Concatenation of sized strings is sized. -/
theorem Str.Sized.concat (lSized : l.Sized) (rSized : r.Sized) : (concat l r).Sized := by
  unfold Strings.concat
  split_ifs
  · exact lSized
  · exact rSized
  · split
    · split_ifs
      · trivial
      · exact ⟨rfl, trivial, trivial⟩
    · exact ⟨rfl, lSized, rSized⟩

/-- Concatenation puts the bytes one behind the other. -/
theorem bytes_concat (lSized : l.Sized) (rSized : r.Sized) :
    (concat l r).bytes = l.bytes ++ r.bytes := by
  unfold concat
  split_ifs with rEmpty lEmpty
  · rw [rSized.len_eq] at rEmpty
    rw [eq_nil_of_length_eq_zero rEmpty, append_nil]
  · rw [lSized.len_eq] at lEmpty
    rw [eq_nil_of_length_eq_zero lEmpty, nil_append]
  · split
    · split_ifs <;> rfl
    · rfl

end Ropes

section Sequences

variable {text : List Nat}

/-- The first byte of a code point tells its bytes and its code units. -/
theorem scanDecode_utf8Bytes (valid : c < 0x110000) :
    ∃ first rest, utf8Bytes c = first :: rest ∧
      scanDecode first = ((utf8Bytes c).length, width c) := by
  unfold utf8Bytes width
  split_ifs with one two three
  · exact ⟨c, [], rfl, by simp [scanDecode, one]⟩
  · omega
  · refine ⟨_, _, rfl, ?_⟩
    rw [scanDecode, if_neg (by omega), if_pos (by omega)]
    rfl
  · omega
  · refine ⟨_, _, rfl, ?_⟩
    rw [scanDecode, if_neg (by omega), if_neg (by omega), if_pos (by omega)]
    rfl
  · refine ⟨_, _, rfl, ?_⟩
    rw [scanDecode, if_neg (by omega), if_neg (by omega), if_neg (by omega), if_pos (by omega)]
    rfl

/-- A four-byte sequence is decoded to its code point. -/
theorem scanCodePoint_utf8Bytes
    (supplementary : ¬ c < 0x10000) (valid : c < 0x110000) (rest : Bytes) :
    scanCodePoint (utf8Bytes c ++ rest) = (4, 2, c) := by
  unfold utf8Bytes
  rw [if_neg (by omega), if_neg (by omega), if_neg supplementary]
  simp only [cons_append, scanCodePoint]
  rw [if_neg (by omega), if_neg (by omega), if_neg (by omega), if_pos (by omega)]
  simp only [Prod.mk.injEq, true_and]
  omega

/-- A code point from U+10000 on takes four bytes. -/
theorem length_utf8Bytes_of_supplementary (supplementary : ¬ c < 0x10000) :
    (utf8Bytes c).length = 4 := by
  unfold utf8Bytes
  rw [if_neg (by omega), if_neg (by omega), if_neg supplementary]
  rfl

theorem length_utf8Bytes_pos (c : Nat) : 0 < (utf8Bytes c).length := by
  unfold utf8Bytes
  split_ifs <;> simp

theorem length_le_length_utf8 (text : List Nat) : text.length ≤ (utf8 text).length := by
  induction text with
  | nil => rfl
  | cons c text ih =>
    have nonempty := length_utf8Bytes_pos c
    rw [Text.utf8_cons, length_append, length_cons]
    omega

theorem width_eq_two_iff : width c = 2 ↔ ¬ c < 0x10000 := by
  unfold width
  split_ifs with basic <;> simp [basic]

/-- Only ASCII code points are encoded in ASCII bytes. -/
theorem isAscii_utf8 (ascii : isAscii (utf8 text) = true) : ∀ c ∈ text, c < 0x80 := by
  intro c isIn
  by_contra notAscii
  have allBytes : ∀ b ∈ utf8 text, b < 0x80 := by simpa [isAscii] using ascii
  have large : ∃ b ∈ utf8Bytes c, 0x80 ≤ b := by
    unfold utf8Bytes
    split_ifs <;> exact ⟨_, mem_cons_self, by omega⟩
  obtain ⟨b, isByte, bLarge⟩ := large
  have := allBytes b (mem_flatMap.mpr ⟨c, isIn, isByte⟩)
  omega

/-- The bytes of ASCII text are its code points. -/
theorem utf8_of_ascii (ascii : ∀ c ∈ text, c < 0x80) : utf8 text = text := by
  induction text with
  | nil => rfl
  | cons c text ih =>
    have here : utf8Bytes c = [c] := if_pos (ascii c (by simp))
    rw [Text.utf8_cons, here, ih fun d isIn => ascii d (by simp [isIn])]
    rfl

end Sequences

section Cursors

variable {str : Bytes} {cursor : Cursor} {text : List Nat}

/-- The bytes from the cursor on encode the text. -/
def Cursor.At (str : Bytes) (cursor : Cursor) (text : List Nat) : Prop :=
  str.drop cursor.p = utf8 text

/-- What a loop sees at a code point, and where it goes from there. -/
theorem Cursor.At.cons (here : cursor.At str (c :: text)) (valid : c < 0x110000) :
    ∃ first rest,
      str.drop cursor.p = first :: rest ∧ first :: rest = utf8Bytes c ++ utf8 text ∧
      scanDecode first = ((utf8Bytes c).length, width c) ∧
      (cursor.advance (utf8Bytes c).length (width c)).At str text := by
  obtain ⟨first, rest, bytes, scanned⟩ := scanDecode_utf8Bytes valid
  have split : str.drop cursor.p = utf8Bytes c ++ utf8 text := by exact here
  refine ⟨first, rest ++ utf8 text, ?_, ?_, scanned, ?_⟩
  · rw [split, bytes]
    rfl
  · rw [bytes]
    rfl
  · change str.drop (cursor.p + (utf8Bytes c).length) = utf8 text
    rw [← drop_drop, split, drop_left]

/-- A cursor at the start has the whole text before it. -/
theorem Cursor.at_start (text : List Nat) : (Cursor.mk 0 0).At (utf8 text) text :=
  rfl

/-- The length in code units is counted code point by code point. -/
theorem utf16Strlen_eq
    (valid : Valid text) (fuel : Nat) (enough : text.length ≤ fuel) (here : cursor.At str text) :
    utf16Strlen str fuel cursor = cursor.utf16Pos + (utf16 text).length := by
  induction text generalizing fuel cursor with
  | nil =>
    have atEnd : str.drop cursor.p = [] := here
    cases fuel with
    | zero => rfl
    | succ fuel =>
      rw [utf16Strlen, atEnd]
      rfl
  | cons c text ih =>
    obtain ⟨first, rest, seen, -, scanned, next⟩ := here.cons valid.head
    cases fuel with
    | zero => simp at enough
    | succ fuel =>
      rw [utf16Strlen, seen]
      simp only [scanned]
      rw [ih valid.tail fuel (by simpa using enough) next,
        Text.utf16_cons, length_append, Text.length_utf16Units, Cursor.advance,
        Nat.add_assoc]

/-- A turn of the search for the start of a range, at a code point. -/
theorem Cursor.At.seekStart_cons
    (here : cursor.At str (c :: text)) (valid : Valid (c :: text)) (start fuel : Nat) :
    seekStart str start (fuel + 1) cursor =
      if cursor.utf16Pos < start then
        if width c = 2 ∧ cursor.utf16Pos + 1 = start then
          (lowOf c, cursor.advance (utf8Bytes c).length (width c))
        else seekStart str start fuel (cursor.advance (utf8Bytes c).length (width c))
      else (0, cursor) := by
  obtain ⟨first, rest, seen, bytes, scanned, -⟩ := here.cons valid.head
  rw [seekStart, seen]
  simp only [scanned]
  refine if_congr Iff.rfl (ite_congr rfl (fun splits => ?_) fun _ => rfl) rfl
  have supplementary := width_eq_two_iff.mp splits.1
  rw [bytes, scanCodePoint_utf8Bytes supplementary valid.head,
    length_utf8Bytes_of_supplementary supplementary, splits.1]
  rfl

/-- The first loop of a range: what is left of the range starts at the cursor it
stops at, behind the low surrogate it may report. -/
theorem seekStart_spec
    (valid : Valid text) (fuel : Nat) (enough : text.length ≤ fuel) (here : cursor.At str text)
    (nonempty : start < stop) (reached : cursor.utf16Pos ≤ start) :
    ∃ rest,
      (seekStart str start fuel cursor).2.At str rest ∧ Valid rest ∧
      utf8 (Text.range text (start - cursor.utf16Pos) (stop - cursor.utf16Pos)) =
        surrogateToWtf8 (seekStart str start fuel cursor).1 ++
          utf8 (Text.range rest 0 (stop - (seekStart str start fuel cursor).2.utf16Pos)) := by
  induction text generalizing fuel cursor with
  | nil =>
    have atEnd : str.drop cursor.p = [] := here
    have stopped : seekStart str start fuel cursor = (0, cursor) := by
      cases fuel with
      | zero => rfl
      | succ fuel => rw [seekStart, atEnd]
    rw [stopped]
    exact ⟨[], here, valid, rfl⟩
  | cons c text ih =>
    obtain ⟨-, -, -, -, -, next⟩ := here.cons valid.head
    cases fuel with
    | zero => simp at enough
    | succ fuel =>
      rw [here.seekStart_cons valid]
      split_ifs with before splits
      · -- The start is between the two surrogates of `c`.
        obtain ⟨more, stopEq⟩ : ∃ more, stop = cursor.utf16Pos + (more + 2) :=
          ⟨stop - cursor.utf16Pos - 2, by omega⟩
        have startEq : start - cursor.utf16Pos = 1 := by omega
        have low := Text.lowOf_bounds c
        refine ⟨text, next, valid.tail, ?_⟩
        rw [startEq, stopEq, Nat.add_sub_cancel_left,
          Text.range_low (width_eq_two_iff.mp splits.1), Text.utf8_cons,
          surrogateToWtf8, if_neg (by omega), Cursor.advance, splits.1,
          ← Nat.add_assoc, Nat.add_right_comm, Nat.add_sub_cancel_left]
      · have stillReached : cursor.utf16Pos + width c ≤ start := by
          rw [Text.width] at splits ⊢
          split_ifs at splits ⊢ <;> omega
        obtain ⟨remaining, atRemaining, remainingValid, ranges⟩ :=
          ih valid.tail fuel (by simpa using enough) next stillReached
        refine ⟨remaining, atRemaining, remainingValid, ?_⟩
        rw [← ranges, ← Text.range_past c text]
        simp only [Cursor.advance]
        congr 2 <;> omega
      · refine ⟨c :: text, here, valid, ?_⟩
        rw [show start - cursor.utf16Pos = 0 by omega]
        rfl

/-- The bytes from the cursor to where a loop stops, with the high surrogate it
may report, encode the text. -/
def Cursor.Passes (str : Bytes) (cursor : Cursor) (result : Nat × Cursor)
    (text : List Nat) : Prop :=
  cursor.p ≤ result.2.p ∧
    (str.drop cursor.p).take (result.2.p - cursor.p) ++ surrogateToWtf8 result.1 = utf8 text

theorem Cursor.passes_nil : cursor.Passes str (0, cursor) [] := by
  refine ⟨Nat.le_refl _, ?_⟩
  rw [Nat.sub_self]
  rfl

/-- A loop that passes a code point and then some others passes all of them. -/
theorem Cursor.Passes.cons
    {result : Nat × Cursor} {passed : List Nat} (here : cursor.At str (c :: text))
    (later : (cursor.advance (utf8Bytes c).length (width c)).Passes str result passed) :
    cursor.Passes str result (c :: passed) := by
  obtain ⟨forward, encoded⟩ := later
  simp only [Cursor.advance] at forward encoded
  have split : str.drop cursor.p = utf8Bytes c ++ utf8 text := by exact here
  refine ⟨by omega, ?_⟩
  rw [← drop_drop, split, drop_left] at encoded
  have lengthEq : result.2.p - cursor.p =
      (utf8Bytes c).length + (result.2.p - (cursor.p + (utf8Bytes c).length)) := by
    omega
  rw [split, lengthEq, take_length_add_append, append_assoc, encoded, Text.utf8_cons]

/-- The second loop of a range passes the range. -/
theorem seekEnd_spec
    (valid : Valid text) (fuel : Nat) (enough : text.length ≤ fuel) (here : cursor.At str text)
    (stop : Nat) :
    cursor.Passes str (seekEnd str stop fuel cursor)
      (Text.range text 0 (stop - cursor.utf16Pos)) := by
  induction text generalizing fuel cursor with
  | nil =>
    have atEnd : str.drop cursor.p = [] := here
    have stopped : seekEnd str stop fuel cursor = (0, cursor) := by
      cases fuel with
      | zero => rfl
      | succ fuel => rw [seekEnd, atEnd]
    rw [stopped]
    exact Cursor.passes_nil
  | cons c text ih =>
    obtain ⟨first, rest, seen, bytes, scanned, next⟩ := here.cons valid.head
    cases fuel with
    | zero => simp at enough
    | succ fuel =>
      rw [seekEnd, seen]
      simp only [scanned]
      split_ifs with before splits
      · -- The end is between the two surrogates of `c`.
        have supplementary := width_eq_two_iff.mp splits.1
        rw [bytes, scanCodePoint_utf8Bytes supplementary valid.head,
          show stop - cursor.utf16Pos = 1 by omega,
          Text.range_high supplementary]
        refine ⟨Nat.le_refl _, ?_⟩
        rw [Nat.sub_self, take_zero, nil_append, surrogateToWtf8, if_neg (by omega)]
        exact (append_nil _).symm
      · have rangeEq : Text.range (c :: text) 0 (stop - cursor.utf16Pos) =
            c :: Text.range text 0 (stop - (cursor.utf16Pos + width c)) := by
          rw [← Text.range_whole]
          congr 1
          rw [Text.width] at splits ⊢
          split_ifs at splits ⊢ <;> omega
        rw [rangeEq]
        exact (ih valid.tail fuel (by simpa using enough) next).cons here
      · rw [show stop - cursor.utf16Pos = 0 by omega]
        exact Cursor.passes_nil

end Cursors

section Slices

variable {text : List Nat}

/-- Bytes, code units and code points of an ASCII string are the same. -/
theorem utf8_range_of_ascii (ascii : isAscii (utf8 text) = true) (start stop : Nat) :
    utf8 (Text.range text start stop) = ((utf8 text).drop start).take (stop - start) := by
  have small := isAscii_utf8 ascii
  have rangeEq := Text.range_of_basic
    (fun c isIn => Nat.lt_trans (small c isIn) (by decide)) start stop
  rw [utf8_of_ascii small, rangeEq]
  apply utf8_of_ascii
  intro c isIn
  exact small c (mem_of_mem_drop (mem_of_mem_take isIn))

/-- Ends of a range past the end of the bytes may be moved to their end. -/
theorem take_drop_min (bytes : Bytes) (start stop : Nat) :
    (bytes.drop (min start bytes.length)).take
        (min stop bytes.length - min start bytes.length) =
      (bytes.drop start).take (stop - start) := by
  apply ext_getElem?
  intro i
  simp only [getElem?_take]
  grind

/-- `js_mkstr_utf16_range` encodes the range of the text. -/
theorem mkstrUtf16Range_utf8 (valid : Valid text) (start stop : Nat) :
    mkstrUtf16Range (utf8 text) start stop = utf8 (Text.range text start stop) := by
  unfold mkstrUtf16Range utf16RangeToByteRange
  by_cases empty : stop ≤ start
  · rw [if_pos empty, Text.range_of_stop_le text empty]
    rfl
  · rw [if_neg empty]
    by_cases ascii : isAscii (utf8 text) = true
    · rw [if_pos ascii, utf8_range_of_ascii ascii, ← take_drop_min]
      simp only [surrogateToWtf8, if_true, nil_append, append_nil, Nat.min_def]
    · rw [if_neg ascii]
      have fuelEnough (rest : List Nat) (p : Nat) (here : (utf8 text).drop p = utf8 rest) :
          rest.length ≤ (utf8 text).length := by
        have shorter := congrArg length here
        have := length_le_length_utf8 rest
        rw [length_drop] at shorter
        omega
      obtain ⟨rest, atRest, restValid, ranges⟩ :=
        seekStart_spec valid _ (fuelEnough text 0 rfl) (Cursor.at_start text)
          (Nat.lt_of_not_le empty) (Nat.zero_le start)
      have passes := seekEnd_spec restValid _ (fuelEnough rest _ atRest) atRest stop
      simp only [Nat.sub_zero] at ranges
      rw [ranges, ← passes.2, append_assoc]

/-- The place a slice argument stands for. -/
def slicePlaces (len : Nat) (start : Int) (stop : Option Int) : Nat × Nat :=
  (sliceIndex len start, (stop.map (sliceIndex len)).getD len)

/-- A slice of the bytes is the encoding of the range of the text. -/
theorem utf16Slice_utf8 (valid : Valid text) (start : Int) (stop : Option Int) :
    utf16Slice (utf8 text) start stop =
      .flat (utf8 (Text.range text (slicePlaces (utf16 text).length start stop).1
        (slicePlaces (utf16 text).length start stop).2)) := by
  have lengthEq : utf16Strlen (utf8 text) (utf8 text).length ⟨0, 0⟩ = (utf16 text).length := by
    rw [utf16Strlen_eq valid _ (length_le_length_utf8 text) (Cursor.at_start text), Nat.zero_add]
  simp only [utf16Slice, lengthEq, slicePlaces]
  rw [mkstrUtf16Range_utf8 valid]
  split_ifs with crossed
  · rw [Text.range_of_stop_le _ (Nat.le_refl _), Text.range_of_stop_le _ crossed.le]
  · rfl

/-- The branch for ASCII strings takes the same range. -/
theorem asciiSlice_utf8
    (ascii : isAscii (utf8 text) = true) {stop : Option Int} (startNonneg : 0 ≤ start)
    (stopNonneg : 0 ≤ stop.getD (utf8 text).length) :
    asciiSlice (utf8 text) start.toNat (stop.getD (utf8 text).length).toNat =
      .flat (utf8 (Text.range text (slicePlaces (utf16 text).length start stop).1
        (slicePlaces (utf16 text).length start stop).2)) := by
  have lengthEq : (utf16 text).length = (utf8 text).length := by
    have small := isAscii_utf8 ascii
    rw [utf8_of_ascii small,
      Text.utf16_of_basic fun c isIn => Nat.lt_trans (small c isIn) (by decide)]
  have startEq : (if (utf8 text).length ≤ start.toNat then (utf8 text).length
      else start.toNat) = (slicePlaces (utf16 text).length start stop).1 := by
    simp only [slicePlaces, sliceIndex]
    split_ifs <;> omega
  have stopEq : (if (utf8 text).length ≤ (stop.getD (utf8 text).length).toNat then
      (utf8 text).length else (stop.getD (utf8 text).length).toNat) =
        (slicePlaces (utf16 text).length start stop).2 := by
    simp only [slicePlaces, lengthEq]
    cases stop with
    | none => simp
    | some stop =>
      simp only [Option.getD_some, Option.map_some, sliceIndex] at stopNonneg ⊢
      split_ifs <;> omega
  simp only [asciiSlice, startEq, stopEq]
  rw [utf8_range_of_ascii ascii]
  split_ifs with whole proper
  · rw [whole.1, whole.2, Nat.sub_zero, drop_zero, take_length]
  · rfl
  · rw [Nat.sub_eq_zero_of_le (Nat.le_of_not_lt proper)]

end Slices

section Texts

/-- The string stores the text: what every string operation keeps. -/
structure Stored (str : Str) (text : List Nat) : Prop where
  sized : str.Sized
  valid : Valid text
  encoded : str.bytes = utf8 text

variable {str l r : Str} {text s t : List Nat}

/-- A stored text is read as its encoding. -/
theorem Stored.vstr_eq (stored : Stored str text) : vstr str = some (utf8 text) := by
  rw [Strings.vstr_eq stored.sized, stored.encoded]

theorem stored_flat (valid : Valid text) : Stored (.flat (utf8 text)) text :=
  ⟨trivial, valid, rfl⟩

/-- Concatenation stores the two texts one behind the other. -/
theorem Stored.concat (left : Stored l s) (right : Stored r t) :
    Stored (concat l r) (s ++ t) where
  sized := left.sized.concat right.sized
  valid := left.valid.append right.valid
  encoded := by
    rw [bytes_concat left.sized right.sized, left.encoded, right.encoded, Text.utf8_append]

/-- A slice stores the range of the text. -/
theorem Stored.slice (stored : Stored str text) (start : Int) (stop : Option Int) :
    ∃ sliced, slice str start stop = some sliced ∧
      Stored sliced (Text.range text (slicePlaces (utf16 text).length start stop).1
        (slicePlaces (utf16 text).length start stop).2) := by
  refine ⟨_, ?_, stored_flat (stored.valid.range _ _)⟩
  cases str with
  | flat bytes =>
    obtain rfl : bytes = utf8 text := stored.encoded
    unfold Strings.slice
    simp only
    split_ifs with short
    · rw [asciiSlice_utf8 short.1 short.2.1 short.2.2]
    · rw [utf16Slice_utf8 stored.valid]
  | rope len left right =>
    unfold Strings.slice
    rw [stored.vstr_eq, Option.map_some, utf16Slice_utf8 stored.valid]

/-- A high and a low surrogate are joined to a code point from U+10000 on. -/
theorem joinSurrogates_bounds (isHigh : Text.isHigh high = true) (isLow : Text.isLow low = true) :
    0x10000 ≤ joinSurrogates high low ∧ joinSurrogates high low < 0x110000 := by
  simp only [Text.isHigh, Text.isLow, Bool.and_eq_true, decide_eq_true_eq] at isHigh isLow
  unfold joinSurrogates
  omega

/-- A literal consists of code points. -/
theorem valid_decodePieces (pieces : List Piece) : Valid (decodePieces pieces) := by
  have unit (codeUnit : Fin 0x10000) : codeUnit.val < 0x110000 :=
    Nat.lt_trans codeUnit.isLt (by decide)
  fun_induction decodePieces pieces with
  | case1 => exact Text.valid_nil
  | case2 cp rest ih => exact ih.cons cp.isLt
  | case3 high => exact Text.valid_nil.cons (unit high)
  | case4 high cp rest ih => exact (ih.cons cp.isLt).cons (unit high)
  | case5 high low rest surrogates ih =>
    rw [Bool.and_eq_true] at surrogates
    exact ih.cons (joinSurrogates_bounds surrogates.1 surrogates.2).2
  | case6 high low rest notPair ih => exact ih.cons (unit high)

end Texts

end AntRuntime.Strings
