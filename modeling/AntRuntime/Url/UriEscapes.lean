import AntRuntime.Text.Surrogates

/-!
# Escapes of URIs and their components

`encodeURIComponent` and `encodeURI` differ in the characters they keep, and
`decodeURIComponent` and `decodeURI` in the escapes they keep. All of them measure their
argument with `strlen`, and the encoders refuse a surrogate even if it is one half of a
pair that a concatenation has put together.
-/

namespace AntRuntime.Uri

open Text List

/-- The bytes of a string. -/
abbrev Bytes := List Nat

section Model

/-- `uri_unreserved`. -/
def uriUnreserved : List Nat :=
  [0,0,0,0,0,0,0,0,0,0,0,0,0,0,0,0, 0,0,0,0,0,0,0,0,0,0,0,0,0,0,0,0,
   0,1,0,0,0,0,0,1,1,1,1,0,0,1,1,0,
   1,1,1,1,1,1,1,1,1,1,0,0,0,0,0,0,
   0,1,1,1,1,1,1,1,1,1,1,1,1,1,1,1,
   1,1,1,1,1,1,1,1,1,1,1,0,0,0,0,1,
   0,1,1,1,1,1,1,1,1,1,1,1,1,1,1,1,
   1,1,1,1,1,1,1,1,1,1,1,0,0,0,1,0]

/-- `uri_reserved`. -/
def uriReserved : List Nat :=
  [0,0,0,0,0,0,0,0,0,0,0,0,0,0,0,0, 0,0,0,0,0,0,0,0,0,0,0,0,0,0,0,0,
   0,0,0,1,1,0,1,0,0,0,0,1,1,0,0,1,
   0,0,0,0,0,0,0,0,0,0,1,1,0,1,0,1,
   1,0,0,0,0,0,0,0,0,0,0,0,0,0,0,0]

/-- `is_uri_unreserved`; the table is zero from 128 on. -/
def isUriUnreserved (c : Nat) : Bool :=
  uriUnreserved.getD c 0 ≠ 0

/-- `is_uri_reserved`; the table is zero from 80 on. -/
def isUriReserved (c : Nat) : Bool :=
  uriReserved.getD c 0 ≠ 0

/-- `utf8_sequence_length`. -/
def utf8SequenceLength (firstByte : Nat) : Option Nat :=
  if firstByte / 0x80 = 0 then some 1
  else if firstByte / 0x20 = 0xC0 / 0x20 then some 2
  else if firstByte / 0x10 = 0xE0 / 0x10 then some 3
  else if firstByte / 0x08 = 0xF0 / 0x08 then some 4
  else none

/-- `is_valid_continuation`. -/
def isValidContinuation (c : Nat) : Bool :=
  c / 0x40 = 0x80 / 0x40

/-- `is_lone_surrogate`, of the sequence with that first byte and those that follow. -/
def isLoneSurrogate (first : Nat) (others : Bytes) : Bool :=
  others.length == 2 && first == 0xED && 0xA0 ≤ others.getD 0 0 && others.getD 0 0 ≤ 0xBF

/-- A digit of `"%02X"`. -/
def hexUpper (digit : Nat) : Nat :=
  if digit < 10 then 0x30 + digit else 0x37 + digit

/-- `snprintf` with `"%%%02X"`. -/
def escape (byte : Nat) : Bytes :=
  [0x25, hexUpper (byte / 16), hexUpper (byte % 16)]

/-- `hex_digit`. -/
def hexDigit (c : Nat) : Option Nat :=
  if 0x30 ≤ c ∧ c ≤ 0x39 then some (c - 0x30)
  else if 0x61 ≤ c ∧ c ≤ 0x66 then some (c - 0x57)
  else if 0x41 ≤ c ∧ c ≤ 0x46 then some (c - 0x37)
  else none

/-- The loop of the encoders, which differ in the bytes they keep. -/
def encodeLoop (keeps : Nat → Bool) : Nat → Bytes → Option Bytes
  | _, [] => some []
  | 0, _ :: _ => none
  | fuel + 1, c :: rest =>
    if keeps c then (encodeLoop keeps fuel rest).map (c :: ·)
    else
      (utf8SequenceLength c).bind fun seqLen =>
        let others := rest.take (seqLen - 1)
        if rest.length + 1 < seqLen || !others.all isValidContinuation
            || isLoneSurrogate c others then none
        else
          (encodeLoop keeps fuel (rest.drop (seqLen - 1))).map ((c :: others).flatMap escape ++ ·)

/-- What a function that may find its argument malformed returns. -/
def orMalformed : Option Bytes → Except String Bytes
  | none => .error "URI malformed"
  | some out => .ok out

/-- The characters up to `strlen`. -/
def cString (str : Bytes) : Bytes :=
  str.takeWhile (· ≠ 0)

def encodeWith (keeps : Nat → Bool) (str : Bytes) : Except String Bytes :=
  orMalformed (encodeLoop keeps (cString str).length (cString str))

/-- `js_encodeURIComponent` of a string. -/
def encodeURIComponent (str : Bytes) : Except String Bytes :=
  encodeWith isUriUnreserved str

/-- `js_encodeURI` of a string. -/
def encodeURI (str : Bytes) : Except String Bytes :=
  encodeWith (fun c => isUriUnreserved c || isUriReserved c) str

/-- `decode_escape_sequence`: the byte and what follows the escape. -/
def decodeEscapeSequence : Bytes → Option (Nat × Bytes)
  | percent :: high :: low :: rest =>
    if percent ≠ 0x25 then none
    else
      (hexDigit high).bind fun high => (hexDigit low).map fun low => (high * 16 + low, rest)
  | _ => none

/-- The continuation bytes of a sequence. -/
def decodeContinuations : Nat → Bytes → Option (Bytes × Bytes)
  | 0, str => some ([], str)
  | count + 1, str =>
    (decodeEscapeSequence str).bind fun (contByte, rest) =>
      if !isValidContinuation contByte then none
      else (decodeContinuations count rest).map fun (others, rest) => (contByte :: others, rest)

/-- The loop of the decoders, which differ in the escapes they keep. -/
def decodeLoop (keepsEscape : Nat → Bool) : Nat → Bytes → Option Bytes
  | _, [] => some []
  | 0, _ :: _ => none
  | fuel + 1, c :: rest =>
    if c ≠ 0x25 then (decodeLoop keepsEscape fuel rest).map (c :: ·)
    else
      (decodeEscapeSequence (c :: rest)).bind fun (firstByte, after) =>
        if keepsEscape firstByte then
          (decodeLoop keepsEscape fuel after).map ((c :: rest).take 3 ++ ·)
        else
          (utf8SequenceLength firstByte).bind fun seqLen =>
            (decodeContinuations (seqLen - 1) after).bind fun (others, after) =>
              (decodeLoop keepsEscape fuel after).map (firstByte :: others ++ ·)

def decodeWith (keepsEscape : Nat → Bool) (str : Bytes) : Except String Bytes :=
  orMalformed (decodeLoop keepsEscape (cString str).length (cString str))

/-- `js_decodeURIComponent` of a string. -/
def decodeURIComponent (str : Bytes) : Except String Bytes :=
  decodeWith (fun _ => false) str

/-- `js_decodeURI` of a string. -/
def decodeURI (str : Bytes) : Except String Bytes :=
  decodeWith (fun firstByte => firstByte < 128 && isUriReserved firstByte) str

end Model

section Characters

/-- A high or a low surrogate. -/
def isSurrogate (c : Nat) : Bool :=
  0xD800 ≤ c && c ≤ 0xDFFF

/-- The bytes of a code point after the first. -/
def tailBytes (c : Nat) : Bytes :=
  (utf8Bytes c).tail

/-- The first byte of a code point. -/
def headByte (c : Nat) : Nat :=
  (utf8Bytes c).headD 0

theorem utf8Bytes_eq (c : Nat) : utf8Bytes c = headByte c :: tailBytes c := by
  unfold headByte tailBytes utf8Bytes
  split_ifs <;> rfl

theorem headByte_bounds (valid : c < 0x110000) :
    headByte c < 0x100 ∧ (¬c < 0x80 → 0xC0 ≤ headByte c) := by
  unfold headByte utf8Bytes
  split_ifs <;> simp only [headD_cons] <;> omega

/-- The first byte tells the length. -/
theorem utf8SequenceLength_headByte (valid : c < 0x110000) :
    utf8SequenceLength (headByte c) = some ((tailBytes c).length + 1) := by
  unfold headByte tailBytes utf8Bytes utf8SequenceLength
  split_ifs <;> simp only [headD_cons] at * <;> first | rfl | omega

theorem all_tailBytes (c : Nat) : (tailBytes c).all isValidContinuation = true := by
  have continuation (n : Nat) : isValidContinuation (0x80 + n % 64) = true := by
    rw [isValidContinuation, decide_eq_true_iff]
    omega
  unfold tailBytes utf8Bytes
  split_ifs <;> simp only [tail_cons, all_cons, all_nil, continuation, Bool.and_self]

theorem isLoneSurrogate_eq (valid : c < 0x110000) :
    isLoneSurrogate (headByte c) (tailBytes c) = isSurrogate c := by
  unfold headByte tailBytes utf8Bytes isLoneSurrogate isSurrogate
  rw [Bool.eq_iff_iff]
  split_ifs <;> simp only [headD_cons, tail_cons, length_cons, length_nil,
      getD_cons_zero, Bool.and_eq_true, decide_eq_true_eq, beq_iff_eq, true_and] <;>
    omega

theorem mem_tailBytes (isIn : byte ∈ tailBytes c) : byte < 0x100 := by
  unfold tailBytes utf8Bytes at isIn
  split_ifs at isIn <;>
    simp only [tail_cons, mem_cons, not_mem_nil, or_false] at isIn <;> omega

theorem hexDigit_hexUpper (small : digit < 16) :
    hexDigit (hexUpper digit) = some digit := by
  have all : ∀ digit < 16, hexDigit (hexUpper digit) = some digit := by decide
  exact all digit small

/-- An escape is read back. -/
theorem decodeEscapeSequence_escape (isByte : byte < 0x100) (rest : Bytes) :
    decodeEscapeSequence (escape byte ++ rest) = some (byte, rest) := by
  change (if 0x25 ≠ 0x25 then none else
    (hexDigit (hexUpper (byte / 16))).bind fun high =>
      (hexDigit (hexUpper (byte % 16))).map fun low => (high * 16 + low, rest)) = _
  rw [if_neg (not_not.mpr rfl), hexDigit_hexUpper (by omega), hexDigit_hexUpper (by omega),
    Option.bind_some, Option.map_some, Nat.div_add_mod']

theorem decodeContinuations_escape
    {others : Bytes} (continuations : others.all isValidContinuation = true)
    (areBytes : ∀ byte ∈ others, byte < 0x100) (rest : Bytes) :
    decodeContinuations others.length (others.flatMap escape ++ rest) = some (others, rest) := by
  induction others with
  | nil => rfl
  | cons byte others ih =>
    rw [all_cons, Bool.and_eq_true] at continuations
    have later := ih continuations.2 fun byte isIn => areBytes byte (mem_cons_of_mem _ isIn)
    rw [length_cons, decodeContinuations, flatMap_cons, append_assoc,
      decodeEscapeSequence_escape (areBytes byte mem_cons_self)]
    simp [continuations.1, later]

end Characters

section RoundTrip

variable {keeps keepsEscape : Nat → Bool} {text : List Nat}

/-- What the encoders write for a code point. -/
def encodePoint (keeps : Nat → Bool) (c : Nat) : Bytes :=
  if keeps (headByte c) then [headByte c] else (utf8Bytes c).flatMap escape

/-- The encoders keep only characters of one byte, and never the percent sign. -/
def KeepsAscii (keeps : Nat → Bool) : Prop :=
  ∀ byte, keeps byte = true → byte < 0x80 ∧ byte ≠ 0x25 ∧ byte ≠ 0

/-- A character that is kept has no further bytes and is no surrogate. -/
theorem KeepsAscii.noTail
    (ascii : KeepsAscii keeps) (valid : c < 0x110000) (kept : keeps (headByte c) = true) :
    tailBytes c = [] ∧ isSurrogate c = false := by
  have small : c < 0x80 := by
    by_contra large
    have below := (ascii _ kept).1
    have above := (headByte_bounds valid).2 large
    omega
  refine ⟨?_, ?_⟩
  · rw [tailBytes, utf8Bytes, if_pos small]
    rfl
  · rw [isSurrogate, Bool.and_eq_false_iff, decide_eq_false_iff_not]
    left
    omega

/-- One step of an encoder. -/
theorem encodeLoop_step
    (valid : c < 0x110000) (notKept : keeps (headByte c) = false) (fuel : Nat) (rest : Bytes) :
    encodeLoop keeps (fuel + 1) (utf8Bytes c ++ rest) =
      if isSurrogate c then none
      else (encodeLoop keeps fuel rest).map ((utf8Bytes c).flatMap escape ++ ·) := by
  have fits : ¬(tailBytes c ++ rest).length + 1 < (tailBytes c).length + 1 := by
    rw [length_append]
    omega
  rw [utf8Bytes_eq, cons_append, encodeLoop, notKept, if_neg Bool.false_ne_true,
    utf8SequenceLength_headByte valid, Option.bind_some]
  simp only [Nat.add_sub_cancel, take_left, drop_left, all_tailBytes,
    isLoneSurrogate_eq valid, decide_eq_false fits, Bool.not_true, Bool.false_or]

theorem encodeLoop_utf8 (ascii : KeepsAscii keeps) (valid : Valid text) {fuel : Nat}
    (enough : (utf8 text).length ≤ fuel) :
    encodeLoop keeps fuel (utf8 text) =
      if text.any isSurrogate then none else some (text.flatMap (encodePoint keeps)) := by
  induction text generalizing fuel with
  | nil => cases fuel <;> rfl
  | cons c text ih =>
    rw [utf8_cons, utf8Bytes_eq, cons_append, length_cons, length_append] at enough
    cases fuel with
    | zero => exact absurd enough (Nat.not_succ_le_zero _)
    | succ fuel =>
      have later := @ih valid.tail fuel (by omega)
      rw [utf8_cons, any_cons, flatMap_cons, encodePoint]
      cases kept : keeps (headByte c) with
      | true =>
        obtain ⟨noTail, notSurrogate⟩ := ascii.noTail valid.head kept
        rw [utf8Bytes_eq, noTail, singleton_append, encodeLoop, later,
          notSurrogate, Bool.false_or, if_pos rfl]
        split_ifs <;> rfl
      | false =>
        rw [encodeLoop_step valid.head kept, later]
        cases isSurrogate c <;> cases text.any isSurrogate <;> rfl

/-- The decoders do not keep the escapes that the encoder writes. -/
def ReadsEscapes (keeps keepsEscape : Nat → Bool) : Prop :=
  ∀ c, c < 0x110000 → keeps (headByte c) = false → keepsEscape (headByte c) = false

/-- One step of a decoder. -/
theorem decodeLoop_step
    (valid : c < 0x110000) (notKept : keepsEscape (headByte c) = false) (fuel : Nat)
    (rest : Bytes) :
    decodeLoop keepsEscape (fuel + 1) ((utf8Bytes c).flatMap escape ++ rest) =
      (decodeLoop keepsEscape fuel rest).map (utf8Bytes c ++ ·) := by
  have isByte := (headByte_bounds valid).1
  rw [utf8Bytes_eq, flatMap_cons, append_assoc]
  have first := decodeEscapeSequence_escape isByte ((tailBytes c).flatMap escape ++ rest)
  have others := decodeContinuations_escape (all_tailBytes c) (fun _ => mem_tailBytes) rest
  rw [escape, cons_append] at first ⊢
  rw [decodeLoop, if_neg (not_not.mpr rfl), first]
  simp [notKept, utf8SequenceLength_headByte valid, others]

section

variable (ascii : KeepsAscii keeps)
include ascii

theorem decodeLoop_encoded
    (reads : ReadsEscapes keeps keepsEscape) (valid : Valid text) {fuel : Nat}
    (enough : (text.flatMap (encodePoint keeps)).length ≤ fuel) :
    decodeLoop keepsEscape fuel (text.flatMap (encodePoint keeps)) = some (utf8 text) := by
  induction text generalizing fuel with
  | nil => cases fuel <;> rfl
  | cons c text ih =>
    rw [flatMap_cons, length_append] at enough
    have nonempty : 0 < (encodePoint keeps c).length := by
      rw [encodePoint, utf8Bytes_eq]
      split_ifs <;> simp [escape]
    cases fuel with
    | zero => omega
    | succ fuel =>
      have later := @ih valid.tail fuel (by omega)
      rw [flatMap_cons, utf8_cons, encodePoint]
      cases kept : keeps (headByte c) with
      | true =>
        obtain ⟨noTail, -⟩ := ascii.noTail valid.head kept
        rw [if_pos rfl, singleton_append, decodeLoop, if_pos (ascii _ kept).2.1, later,
          utf8Bytes_eq, noTail]
        rfl
      | false =>
        rw [if_neg Bool.false_ne_true, decodeLoop_step valid.head (reads c valid.head kept), later]
        rfl

/-- The output of an encoder has no NUL. -/
theorem cString_encoded (text : List Nat) :
    cString (text.flatMap (encodePoint keeps)) = text.flatMap (encodePoint keeps) := by
  have hexNonzero (digit : Nat) : hexUpper digit ≠ 0 := by
    unfold hexUpper
    split_ifs <;> omega
  rw [cString, takeWhile_eq_self_iff]
  intro byte isIn
  obtain ⟨c, -, inPoint⟩ := mem_flatMap.mp isIn
  rw [encodePoint] at inPoint
  split_ifs at inPoint with kept
  · obtain rfl := mem_singleton.mp inPoint
    exact decide_eq_true (ascii _ kept).2.2
  · obtain ⟨source, -, inEscape⟩ := mem_flatMap.mp inPoint
    simp only [escape, mem_cons, not_mem_nil, or_false] at inEscape
    rcases inEscape with rfl | rfl | rfl
    · rfl
    · exact decide_eq_true (hexNonzero _)
    · exact decide_eq_true (hexNonzero _)

/-- What encoding and decoding make of a string: the text up to the first NUL, if it has
no surrogate. -/
theorem encodeWith_bind_decodeWith (reads : ReadsEscapes keeps keepsEscape) (valid : Valid text) :
    (encodeWith keeps (utf8 text)).bind (decodeWith keepsEscape) =
      if (untilNul text).any isSurrogate then .error "URI malformed"
      else .ok (utf8 (untilNul text)) := by
  have cut : cString (utf8 text) = utf8 (untilNul text) := takeWhile_utf8 text
  have cutValid : Valid (untilNul text) := fun c isIn => valid c ((takeWhile_sublist _).subset isIn)
  rw [encodeWith, cut, encodeLoop_utf8 ascii cutValid (Nat.le_refl _)]
  split_ifs
  · rfl
  · change decodeWith keepsEscape _ = _
    rw [decodeWith, cString_encoded ascii, decodeLoop_encoded ascii reads cutValid (Nat.le_refl _)]
    rfl

/-- A string is restored exactly if it has no NUL and no surrogate. -/
theorem encodeWith_bind_decodeWith_eq_iff
    (reads : ReadsEscapes keeps keepsEscape) (valid : Valid text) :
    (encodeWith keeps (utf8 text)).bind (decodeWith keepsEscape) = .ok (utf8 text) ↔
      ∀ c ∈ text, c ≠ 0 ∧ isSurrogate c = false := by
  rw [encodeWith_bind_decodeWith ascii reads valid]
  constructor
  · intro restored
    split_ifs at restored with surrogates
    have whole : untilNul text = text := utf8_injective (Except.ok.inj restored)
    rw [whole, any_eq_true] at surrogates
    rw [untilNul, takeWhile_eq_self_iff] at whole
    intro c isIn
    refine ⟨of_decide_eq_true (whole c isIn), ?_⟩
    rw [← Bool.not_eq_true]
    exact fun isSurrogate => surrogates ⟨c, isIn, isSurrogate⟩
  · intro clean
    rw [untilNul_eq_self fun c isIn => (clean c isIn).1, if_neg]
    rw [any_eq_true]
    rintro ⟨c, isIn, surrogate⟩
    rw [(clean c isIn).2] at surrogate
    cases surrogate

end

end RoundTrip

section Functions

theorem isUriUnreserved_eq_false (large : 0x80 ≤ byte) :
    isUriUnreserved byte = false := by
  have outside : uriUnreserved[byte]? = none := getElem?_eq_none large
  rw [isUriUnreserved, getD_eq_getElem?_getD, outside]
  rfl

theorem isUriReserved_eq_false (large : 0x80 ≤ byte) : isUriReserved byte = false := by
  have outside : uriReserved[byte]? = none := getElem?_eq_none (Nat.le_trans (by decide) large)
  rw [isUriReserved, getD_eq_getElem?_getD, outside]
  rfl

theorem keepsAscii_component : KeepsAscii isUriUnreserved := by
  intro byte kept
  have small : byte < 0x80 := by
    by_contra large
    rw [isUriUnreserved_eq_false (Nat.not_lt.mp large)] at kept
    cases kept
  have table : ∀ byte < 0x80, isUriUnreserved byte = true → byte ≠ 0x25 ∧ byte ≠ 0 := by
    decide +kernel
  exact ⟨small, table byte small kept⟩

theorem keepsAscii_uri : KeepsAscii fun c => isUriUnreserved c || isUriReserved c := by
  intro byte kept
  have small : byte < 0x80 := by
    by_contra large
    simp only [isUriUnreserved_eq_false (Nat.not_lt.mp large),
      isUriReserved_eq_false (Nat.not_lt.mp large), Bool.or_self, Bool.false_eq_true] at kept
  have table : ∀ byte < 0x80, (isUriUnreserved byte || isUriReserved byte) = true →
      byte ≠ 0x25 ∧ byte ≠ 0 := by
    decide +kernel
  exact ⟨small, table byte small kept⟩

/-- A reserved character is kept by `encodeURI`, so its escape is never written. -/
theorem readsEscapes_uri :
    ReadsEscapes (fun c => isUriUnreserved c || isUriReserved c)
      (fun firstByte => firstByte < 128 && isUriReserved firstByte) := by
  intro c _ notKept
  rw [Bool.or_eq_false_iff] at notKept
  simp only [notKept.2, Bool.and_false]

/-- Which strings the two pairs of functions restore. -/
theorem decode_encode_iff {text : List Nat} (valid : Valid text) :
    ((encodeURIComponent (utf8 text)).bind decodeURIComponent = .ok (utf8 text) ↔
      ∀ c ∈ text, c ≠ 0 ∧ isSurrogate c = false) ∧
    ((encodeURI (utf8 text)).bind decodeURI = .ok (utf8 text) ↔
      ∀ c ∈ text, c ≠ 0 ∧ isSurrogate c = false) :=
  ⟨encodeWith_bind_decodeWith_eq_iff keepsAscii_component (fun _ _ _ => rfl) valid,
    encodeWith_bind_decodeWith_eq_iff keepsAscii_uri readsEscapes_uri valid⟩

/-- The string `"é#%"` with a character of four bytes. -/
def sampleText : List Nat :=
  [0xE9, 0x23, 0x25, 0x1F600]

theorem decode_encode_sample :
    Valid sampleText ∧
      (((encodeURIComponent (utf8 sampleText)).bind decodeURIComponent = .ok (utf8 sampleText) ↔
        ∀ c ∈ sampleText, c ≠ 0 ∧ isSurrogate c = false) ∧
      ((encodeURI (utf8 sampleText)).bind decodeURI = .ok (utf8 sampleText) ↔
        ∀ c ∈ sampleText, c ≠ 0 ∧ isSurrogate c = false)) :=
  have valid : Valid sampleText := by
    unfold Valid
    decide
  ⟨valid, decode_encode_iff valid⟩

/-- The string `"a\u0000b"`, which is well formed. -/
def nulText : List Nat :=
  [0x61, 0, 0x62]

/-- A string with a NUL loses it and what follows. -/
theorem decode_encode_nul :
    (∀ c ∈ nulText, isSurrogate c = false) ∧
      (encodeURIComponent (utf8 nulText)).bind decodeURIComponent ≠ .ok (utf8 nulText) ∧
      (encodeURI (utf8 nulText)).bind decodeURI ≠ .ok (utf8 nulText) := by
  decide +kernel

end Functions

end AntRuntime.Uri
