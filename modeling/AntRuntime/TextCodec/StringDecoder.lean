import AntRuntime.Bytes.Words
import AntRuntime.TextCodec.Decoder

/-!
# StringDecoder

The encodings of Unicode are left to a `TextDecoder`, `latin1` and `hex` write each byte by
itself, and `base64` keeps the bytes of an unfinished triple.
-/

namespace AntRuntime.TextCodec

open Text List

section Model

/-- `SD_ENC_UTF8` and the others. -/
inductive SdEncoding
  | utf8
  | utf16le
  | utf16be
  | latin1
  | hex
  | base64
deriving DecidableEq

/-- The table of `sd_parse_encoding`. -/
def sdEncodings : List (String × SdEncoding) :=
  [("utf8", .utf8), ("utf-8", .utf8), ("utf16le", .utf16le), ("utf-16le", .utf16le),
   ("ucs2", .utf16le), ("ucs-2", .utf16le), ("latin1", .latin1), ("binary", .latin1),
   ("ascii", .latin1), ("hex", .hex), ("base64", .base64), ("base64url", .base64)]

/-- `sd_parse_encoding`, which does not mind the case. -/
def sdParseEncoding (label : String) : SdEncoding :=
  ((sdEncodings.find? fun entry => entry.1 = label.toLower).map Prod.snd).getD .utf8

/-- `sd_state_t`. The decoder is used by the encodings of Unicode only, the pending bytes by
`base64` only. -/
structure SdState where
  encoding : SdEncoding
  td : TdState
  pending : List UInt8

/-- `string_decoder_create`. -/
def stringDecoderCreate (label : String) : SdState where
  encoding := sdParseEncoding label
  td := tdStateNew (match sdParseEncoding label with
    | .utf16le => .utf16le
    | .utf16be => .utf16be
    | _ => .utf8) false false
  pending := []

/-- A byte of `latin1_to_utf8`. -/
def latin1ToUtf8 (byte : UInt8) : List Nat :=
  if byte < 0x80 then [byte.toNat] else [0xC0 + byte.toNat / 64, 0x80 + byte.toNat % 64]

/-- A byte of `sd_hex_decode`. -/
def sdHexDecode (byte : UInt8) : List Nat :=
  [byte.toNat / 16, byte.toNat % 16].map fun digit => if digit < 10 then 48 + digit else 87 + digit

variable (base64Encode : List UInt8 → List Nat)

/-- `sd_base64_write`. `ant_base64_encode` hands the bytes to `base64_encode` of libbase64. -/
def sdBase64Write (st : SdState) (src : List UInt8) (flush : Bool) : List Nat × SdState :=
  let work := st.pending ++ src
  let encodeLen := if flush then work.length else work.length / 3 * 3
  (if encodeLen = 0 then [] else base64Encode (work.take encodeLen),
    { st with pending := work.drop encodeLen })

variable [Utf8proc]

/-- `sd_do_write`. -/
def sdDoWrite (st : SdState) (src : List UInt8) (flush : Bool) :
    Except String (List Nat) × SdState :=
  match st.encoding with
  | .utf8 | .utf16le | .utf16be =>
    ((tdDecode st.td src !flush).1, { st with td := (tdDecode st.td src !flush).2 })
  | .latin1 => (.ok (src.flatMap latin1ToUtf8), st)
  | .hex => (.ok (src.flatMap sdHexDecode), st)
  | .base64 =>
    ((.ok (sdBase64Write base64Encode st src flush).1), (sdBase64Write base64Encode st src flush).2)

/-- `js_sd_write` for each chunk, then `js_sd_end`; the outputs are joined. -/
def writeAll : SdState → List (List UInt8) → Except String (List Nat)
  | st, [] => (sdDoWrite base64Encode st [] true).1
  | st, chunk :: chunks =>
    match sdDoWrite base64Encode st chunk false with
    | (.error message, _) => .error message
    | (.ok out, st) => (writeAll st chunks).map (out ++ ·)

end Model

/-- An encoder of base64, which writes whole triples of bytes by themselves. -/
def EncodesTriples (base64Encode : List UInt8 → List Nat) : Prop :=
  ∀ first second : List UInt8, 3 ∣ first.length →
    base64Encode (first ++ second) = base64Encode first ++ base64Encode second

section Chunks

variable {base64Encode : List UInt8 → List Nat} {st : SdState}

theorem EncodesTriples.nil (triples : EncodesTriples base64Encode) : base64Encode [] = [] := by
  have twice := triples [] [] (dvd_zero 3)
  simpa using twice

/-- Nothing is encoded as nothing. -/
theorem sdBase64Write_fst (triples : EncodesTriples base64Encode) (src : List UInt8)
    (flush : Bool) :
    (sdBase64Write base64Encode st src flush).1 = base64Encode ((st.pending ++ src).take
      (if flush then (st.pending ++ src).length else (st.pending ++ src).length / 3 * 3)) := by
  rw [sdBase64Write]
  split_ifs with _ none none
  · rw [none, take_zero, triples.nil]
  · rfl
  · rw [none, take_zero, triples.nil]
  · rfl

variable [Utf8proc]

theorem writeAll_base64 (triples : EncodesTriples base64Encode) (isBase64 : st.encoding = .base64)
    (chunks : List (List UInt8)) :
    writeAll base64Encode st chunks = .ok (base64Encode (st.pending ++ chunks.flatten)) := by
  induction chunks generalizing st with
  | nil => simp [writeAll, sdDoWrite, isBase64, sdBase64Write_fst triples]
  | cons chunk chunks ih =>
    have whole : 3 ∣ ((st.pending ++ chunk).take ((st.pending ++ chunk).length / 3 *
        3)).length := by
      rw [length_take]
      omega
    have joined := triples _
      ((st.pending ++ chunk).drop ((st.pending ++ chunk).length / 3 * 3) ++ chunks.flatten) whole
    rw [← append_assoc, take_append_drop] at joined
    simp only [writeAll, sdDoWrite, isBase64, sdBase64Write_fst triples]
    have rest := @ih (sdBase64Write base64Encode st chunk false).2 isBase64
    rw [rest, flatten_cons, ← append_assoc, joined]
    rfl

/-- An encoding that writes each byte by itself. -/
theorem writeAll_bytewise {write : UInt8 → List Nat}
    (bytewise : ∀ src flush, sdDoWrite base64Encode st src flush = (.ok (src.flatMap write), st))
    (chunks : List (List UInt8)) :
    writeAll base64Encode st chunks = .ok (chunks.flatten.flatMap write) := by
  induction chunks with
  | nil => rw [writeAll, bytewise, flatten_nil]
  | cons chunk chunks ih =>
    rw [writeAll, bytewise, flatten_cons, flatMap_append]
    simp only [ih]
    rfl

/-- An encoding of Unicode is decoded as by a `TextDecoder`. -/
theorem writeAll_unicode {encoding : SdEncoding} {pending : List UInt8}
    (decodes : ∀ td src flush, sdDoWrite base64Encode ⟨encoding, td, pending⟩ src flush =
      ((tdDecode td src !flush).1, ⟨encoding, (tdDecode td src !flush).2, pending⟩))
    (td : TdState) (chunks : List (List UInt8)) :
    writeAll base64Encode ⟨encoding, td, pending⟩ chunks = decodeChunks td chunks := by
  induction chunks generalizing td with
  | nil => rw [writeAll, decodes, decodeChunks, Bool.not_true]
  | cons chunk chunks ih =>
    rw [writeAll, decodes, decodeChunks, Bool.not_false]
    rcases tdDecode td chunk true with ⟨_ | out, next⟩
    · rfl
    · exact congrArg (Except.map (out ++ ·)) (ih next)

/-- Writing a byte string in chunks and ending gives what decoding it at once gives. -/
theorem writeAll_eq (triples : EncodesTriples base64Encode) (label : String)
    (chunks : List (List UInt8)) :
    writeAll base64Encode (stringDecoderCreate label) chunks =
      (sdDoWrite base64Encode (stringDecoderCreate label) chunks.flatten true).1 := by
  obtain ⟨encoding, td, pending⟩ := stringDecoderCreate label
  have unicode : decodeChunks td chunks = (tdDecode td chunks.flatten false).1 := by
    rw [decodeChunks_eq_inPieces, Machine.Resumable.inPieces_eq]
    rfl
  cases encoding with
  | utf8 | utf16le | utf16be => exact (writeAll_unicode (fun _ _ _ => rfl) td chunks).trans unicode
  | latin1 | hex => exact writeAll_bytewise (fun _ _ => rfl) chunks
  | base64 =>
    rw [writeAll_base64 triples rfl]
    simp only [sdDoWrite, sdBase64Write_fst triples, if_true, take_length]

end Chunks

/-! ## The encoding of base64 -/

/-- A digit of the standard alphabet of base64. -/
def base64Digit (digit : Nat) : Nat :=
  ((Bytes.ofAscii
    "ABCDEFGHIJKLMNOPQRSTUVWXYZabcdefghijklmnopqrstuvwxyz0123456789+/").getD (digit % 64) 0).toNat

/-- Base64 with padding: four digits for three bytes. -/
def base64Digits : List UInt8 → List Nat
  | a :: b :: c :: rest =>
    base64Digit (a.toNat / 4) :: base64Digit (a.toNat * 16 + b.toNat / 16) ::
      base64Digit (b.toNat * 4 + c.toNat / 64) :: base64Digit c.toNat :: base64Digits rest
  | [a, b] =>
    [base64Digit (a.toNat / 4), base64Digit (a.toNat * 16 + b.toNat / 16),
      base64Digit (b.toNat * 4), 61]
  | [a] => [base64Digit (a.toNat / 4), base64Digit (a.toNat * 16), 61, 61]
  | [] => []

/-- Base64 encodes whole triples by themselves. -/
theorem base64Digits_triples : EncodesTriples base64Digits := by
  intro first second whole
  match first with
  | [] => rfl
  | [_] | [_, _] => simp at whole
  | a :: b :: c :: rest =>
    rw [length_cons, length_cons, length_cons] at whole
    have later := base64Digits_triples rest second (by omega)
    simp [base64Digits, later]

/-- Four bytes in two chunks that cut the triple. -/
theorem writeAll_base64Digits :
    @writeAll base64Digits exactUtf8 (stringDecoderCreate "base64") [[77], [97, 110, 33]] =
      .ok ("TWFuIQ==".toList.map Char.toNat) :=
  (@writeAll_eq base64Digits exactUtf8 base64Digits_triples "base64" _).trans (by decide +kernel)

end AntRuntime.TextCodec
