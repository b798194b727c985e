import AntRuntime.Text.Surrogates
import Mathlib.Data.Option.Basic

/-!
# Strings

A string is a flat byte buffer or a rope of two strings. The bytes are UTF-8 with
surrogates encoded like other code points; indices are in UTF-16 code units.
-/

namespace AntRuntime.Strings

/-- The bytes of a flat string. -/
abbrev Bytes := List Nat

section Storage

/-- `ant_flat_string_t` or `ant_rope_heap_t`. -/
inductive Str where
  | flat (bytes : Bytes)
  | rope (len : Nat) (left right : Str)
deriving DecidableEq, Repr

/-- `STR_SHORT_CONS_THRESHOLD`. -/
def shortConsThreshold : Nat := 32

/-- `str_len_fast`. -/
def Str.len : Str → Nat
  | .flat bytes => bytes.length
  | .rope len _ _ => len

/-- The number of nodes of a rope. -/
def Str.nodes : Str → Nat
  | .flat _ => 1
  | .rope _ left right => left.nodes + right.nodes + 1

/-- `rope_flatten_into`: the buffer is filled from its end, `pos` bytes are still
free, and the stack holds the left parts not copied yet. -/
def flattenInto : Nat → List Str → Nat → Bytes → Option Bytes
  | _, [], pos, dest => if pos = 0 then some dest else none
  | 0, _ :: _, _, _ => none
  | fuel + 1, .rope _ left right :: stack, pos, dest =>
    flattenInto fuel (right :: left :: stack) pos dest
  | fuel + 1, .flat bytes :: stack, pos, dest =>
    if pos < bytes.length then none
    else flattenInto fuel stack (pos - bytes.length) (bytes ++ dest)

/-- `vstr`: the bytes of a string, a rope being flattened first. -/
def vstr : Str → Option Bytes
  | .flat bytes => some bytes
  | .rope len left right =>
    flattenInto (Str.rope len left right).nodes [.rope len left right] len []

/-- `do_string_op` with `TOK_PLUS`. -/
def concat (l r : Str) : Str :=
  if r.len = 0 then l
  else if l.len = 0 then r
  else
    match l, r with
    | .flat left, .flat right =>
      if left.length + right.length < shortConsThreshold then .flat (left ++ right)
      else .rope (left.length + right.length) l r
    | _, _ => .rope (l.len + r.len) l r

end Storage

section Scanning

/-- `utf16_scan_decode` without a code point: the bytes and the code units of the
sequence that starts with `c`. -/
def scanDecode (c : Nat) : Nat × Nat :=
  if c < 0x80 then (1, 1)
  else if c / 0x20 = 0xC0 / 0x20 then (2, 1)
  else if c / 0x10 = 0xE0 / 0x10 then (3, 1)
  else if c / 0x08 = 0xF0 / 0x08 then (4, 2)
  else (1, 1)

/-- `utf16_scan_decode` with a code point; a sequence cut short by the end of the
string is one byte. -/
def scanCodePoint : Bytes → Nat × Nat × Nat
  | [] => (1, 1, 0)
  | c :: tail =>
    if c < 0x80 then (1, 1, c)
    else if c / 0x20 = 0xC0 / 0x20 then
      match tail with
      | p1 :: _ => (2, 1, c % 0x20 * 0x40 + p1 % 0x40)
      | _ => (1, 1, c)
    else if c / 0x10 = 0xE0 / 0x10 then
      match tail with
      | p1 :: p2 :: _ => (3, 1, c % 0x10 * 0x1000 + p1 % 0x40 * 0x40 + p2 % 0x40)
      | _ => (1, 1, c)
    else if c / 0x08 = 0xF0 / 0x08 then
      match tail with
      | p1 :: p2 :: p3 :: _ =>
        (4, 2, c % 0x08 * 0x40000 + p1 % 0x40 * 0x1000 + p2 % 0x40 * 0x40 + p3 % 0x40)
      | _ => (1, 1, c)
    else (1, 1, c)

/-- `utf16_scan_cursor_t`: a byte offset and the code units before it. -/
structure Cursor where
  p : Nat
  utf16Pos : Nat
deriving DecidableEq, Repr

/-- The cursor behind a sequence. -/
def Cursor.advance (cursor : Cursor) (slen units : Nat) : Cursor :=
  ⟨cursor.p + slen, cursor.utf16Pos + units⟩

/-- `utf16_strlen`. -/
def utf16Strlen (str : Bytes) : Nat → Cursor → Nat
  | 0, cursor => cursor.utf16Pos
  | fuel + 1, cursor =>
    match str.drop cursor.p with
    | [] => cursor.utf16Pos
    | c :: _ => utf16Strlen str fuel (cursor.advance (scanDecode c).1 (scanDecode c).2)

/-- The first loop of `utf16_range_to_byte_range`: the cursor at the start of the
range, and the low surrogate if the start splits a pair. -/
def seekStart (str : Bytes) (utf16Start : Nat) : Nat → Cursor → Nat × Cursor
  | 0, cursor => (0, cursor)
  | fuel + 1, cursor =>
    match str.drop cursor.p with
    | [] => (0, cursor)
    | c :: tail =>
      if cursor.utf16Pos < utf16Start then
        if (scanDecode c).2 = 2 ∧ cursor.utf16Pos + 1 = utf16Start then
          let (slen, units, cp) := scanCodePoint (c :: tail)
          (0xDC00 + (cp - 0x10000) % 0x400, cursor.advance slen units)
        else
          seekStart str utf16Start fuel (cursor.advance (scanDecode c).1 (scanDecode c).2)
      else (0, cursor)

/-- The second loop of `utf16_range_to_byte_range`: the cursor at the end of the
range, and the high surrogate if the end splits a pair. -/
def seekEnd (str : Bytes) (utf16End : Nat) : Nat → Cursor → Nat × Cursor
  | 0, cursor => (0, cursor)
  | fuel + 1, cursor =>
    match str.drop cursor.p with
    | [] => (0, cursor)
    | c :: tail =>
      if cursor.utf16Pos < utf16End then
        if (scanDecode c).2 = 2 ∧ cursor.utf16Pos + 1 = utf16End then
          (0xD800 + ((scanCodePoint (c :: tail)).2.2 - 0x10000) / 0x400, cursor)
        else
          seekEnd str utf16End fuel (cursor.advance (scanDecode c).1 (scanDecode c).2)
      else (0, cursor)

/-- `utf16_range_splits_t` with the byte range. -/
structure ByteRange where
  prefixSurrogate : Nat
  suffixSurrogate : Nat
  byteStart : Nat
  byteEnd : Nat
deriving DecidableEq, Repr

/-- `str_is_ascii`. -/
def isAscii (str : Bytes) : Bool :=
  str.all (· < 0x80)

/-- `utf16_range_to_byte_range`. -/
def utf16RangeToByteRange (str : Bytes) (utf16Start utf16End : Nat) : ByteRange :=
  if utf16End ≤ utf16Start then ⟨0, 0, 0, 0⟩
  else if isAscii str then
    ⟨0, 0, if utf16Start ≤ str.length then utf16Start else str.length,
      if utf16End ≤ str.length then utf16End else str.length⟩
  else
    let (prefixSurrogate, first) := seekStart str utf16Start str.length ⟨0, 0⟩
    let (suffixSurrogate, last) := seekEnd str utf16End str.length first
    ⟨prefixSurrogate, suffixSurrogate, first.p, last.p⟩

/-- `utf16_code_unit_to_wtf8` on a surrogate found by a split; 0 is none. -/
def surrogateToWtf8 (codeUnit : Nat) : Bytes :=
  if codeUnit = 0 then [] else Text.utf8Bytes codeUnit

/-- `js_mkstr_utf16_range`. -/
def mkstrUtf16Range (str : Bytes) (utf16Start utf16End : Nat) : Bytes :=
  let range := utf16RangeToByteRange str utf16Start utf16End
  surrogateToWtf8 range.prefixSurrogate ++
    (str.drop range.byteStart).take (range.byteEnd - range.byteStart) ++
    surrogateToWtf8 range.suffixSurrogate

end Scanning

section Slicing

/-- An argument of `builtin_string_slice` as an index: one below zero counts from
the end, and the result is kept within the string. -/
def sliceIndex (len : Nat) (d : Int) : Nat :=
  if d < 0 then (if d + len < 0 then 0 else (d + len).toNat)
  else if (len : Int) < d then len else d.toNat

/-- The branch of `builtin_string_slice` for a flat ASCII string and arguments
that are not negative. -/
def asciiSlice (bytes : Bytes) (start stop : Nat) : Str :=
  let start := if bytes.length ≤ start then bytes.length else start
  let stop := if bytes.length ≤ stop then bytes.length else stop
  if start = 0 ∧ stop = bytes.length then .flat bytes
  else .flat ((bytes.drop start).take (if start < stop then stop - start else 0))

/-- The other branch of `builtin_string_slice`. -/
def utf16Slice (bytes : Bytes) (start : Int) (stop : Option Int) : Str :=
  let len := utf16Strlen bytes bytes.length ⟨0, 0⟩
  let first := sliceIndex len start
  let last := (stop.map (sliceIndex len)).getD len
  .flat (mkstrUtf16Range bytes (if last < first then last else first) last)

/-- `builtin_string_slice` on integer arguments; a missing end is the length. -/
def slice (str : Str) (start : Int) (stop : Option Int) : Option Str :=
  match str with
  | .flat bytes =>
    if isAscii bytes ∧ 0 ≤ start ∧ 0 ≤ stop.getD bytes.length then
      some (asciiSlice bytes start.toNat (stop.getD bytes.length).toNat)
    else some (utf16Slice bytes start stop)
  | .rope .. => (vstr str).map fun bytes => utf16Slice bytes start stop

end Slicing

section Literals

/-- An element of a string literal: a four-digit Unicode escape, or a code point
written as itself or by another escape. -/
inductive Piece where
  | fixed (codeUnit : Fin 0x10000)
  | point (cp : Fin 0x110000)
deriving DecidableEq, Repr

/-- The code point of a surrogate pair, as `decode_unicode_fixed` computes it. -/
def joinSurrogates (high low : Nat) : Nat :=
  0x10000 + (high - 0xD800) * 0x400 + (low - 0xDC00)

/-- `decode_escape` along a literal: the code points it encodes. A four-digit
escape of a high surrogate looks at the next escape. -/
def decodePieces : List Piece → List Nat
  | [] => []
  | .point cp :: rest => cp :: decodePieces rest
  | [.fixed high] => [high]
  | .fixed high :: .point cp :: rest => high :: cp :: decodePieces rest
  | .fixed high :: .fixed low :: rest =>
    if Text.isHigh high && Text.isLow low then
      joinSurrogates high low :: decodePieces rest
    else high :: decodePieces (.fixed low :: rest)

/-- A literal as the string the lexer stores. -/
def literal (pieces : List Piece) : Str :=
  .flat (Text.utf8 (decodePieces pieces))

end Literals

section Comparison

/-- `memcmp` on the first `n` bytes. -/
def memcmp : Bytes → Bytes → Nat → Int
  | x :: xs, y :: ys, n + 1 =>
    if x = y then memcmp xs ys n else if x < y then -1 else 1
  | _, _, _ => 0

/-- `strict_eq_values` on strings. -/
def strictEqValues (l r : Str) : Option Bool := do
  let left ← vstr l
  let right ← vstr r
  return left.length == right.length && memcmp left right left.length == 0

/-- `sv_strcmp`. -/
def svStrcmp (l r : Str) : Option Int := do
  let left ← vstr l
  let right ← vstr r
  let minLen := if left.length < right.length then left.length else right.length
  let cmp := memcmp left right minLen
  return if cmp = 0 then
      (if left.length < right.length then -1
      else if right.length < left.length then 1 else 0)
    else if cmp < 0 then -1 else 1

/-- The relational operators. -/
inductive RelOp where
  | lt | le | gt | ge
deriving DecidableEq, Repr

/-- The operator on the result of a comparison with zero. -/
def RelOp.holds : RelOp → Int → Bool
  | .lt, cmp => cmp < 0
  | .le, cmp => cmp ≤ 0
  | .gt, cmp => 0 < cmp
  | .ge, cmp => 0 ≤ cmp

/-- `sv_op_lt` and the like on two strings. -/
def svRelational (op : RelOp) (l r : Str) : Option Bool :=
  (svStrcmp l r).map op.holds

/-- `do_string_op` with a relational operator. -/
def doStringOp (op : RelOp) (l r : Str) : Option Bool := do
  let left ← vstr l
  let right ← vstr r
  let minLen := if left.length < right.length then left.length else right.length
  let cmp := memcmp left right minLen
  if cmp = 0 then
    if left.length = right.length then return op == .le || op == .ge
    else return op.holds (if left.length < right.length then -1 else 1)
  else return op.holds cmp

end Comparison

end AntRuntime.Strings
