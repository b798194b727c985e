import AntRuntime.Machine.Resumable
import AntRuntime.Text.Surrogates

/-!
# TextDecoder

A decoder keeps the bytes of an unfinished sequence and puts them in front of the next
chunk. The UTF-8 decoder is a machine over bytes whose state is restored by those bytes;
the UTF-16 decoder reads units and pairs from the front. So it makes no difference where
an input is cut.
-/

namespace AntRuntime.TextCodec

open Text List Option

/-- `utf8proc_encode_char`, of which only the documented use is known: it encodes code points
that are no surrogates in UTF-8. -/
class Utf8proc where
  encodeChar : Nat → List Nat
  encodeChar_eq : ∀ c, c < 0x110000 → isHigh c = false → isLow c = false → encodeChar c =
    utf8Bytes c

/-- The UTF-8 encoding itself. -/
abbrev exactUtf8 : Utf8proc where
  encodeChar := utf8Bytes
  encodeChar_eq _ _ _ _ := rfl

open Utf8proc (encodeChar)

section Model

variable [Utf8proc]

/-- `td_encoding_t`. -/
inductive Encoding
  | utf8
  | utf16le
  | utf16be
  | windows1252
  | iso88592
deriving DecidableEq

/-- `td_state_t`. -/
structure TdState where
  encoding : Encoding
  fatal : Bool
  ignoreBom : Bool
  bomSeen : Bool
  pending : List UInt8
deriving DecidableEq

/-- `td_state_new`. -/
def tdStateNew (encoding : Encoding) (fatal ignoreBom : Bool) : TdState :=
  ⟨encoding, fatal, ignoreBom, false, []⟩

/-- What a decoding function leaves: its output, unless the data was not valid, and the
state. -/
structure Decoded where
  out : Option (List Nat)
  bomSeen : Bool
  pending : List UInt8

/-- The bytes of `U+FFFD`. -/
def fffd : List Nat :=
  [0xEF, 0xBF, 0xBD]

/-- The variables of `utf8_whatwg_decode` between two bytes. -/
structure Utf8Dec where
  bomSeen : Bool
  bc : Nat
  lo : UInt8
  hi : UInt8
  cp : Nat
  pb : List UInt8

/-- No sequence is open. -/
def Utf8Dec.idle (bomSeen : Bool) : Utf8Dec :=
  ⟨bomSeen, 0, 0x80, 0xBF, 0, []⟩

/-- The jump to the label of a byte. -/
def startByte (fatal bomSeen : Bool) (b : UInt8) : Option (Utf8Dec × List Nat) :=
  if b < 0x80 then some (.idle true, [b.toNat])
  else if b < 0xC2 ∨ 0xF5 ≤ b then if fatal then none else some (.idle true, fffd)
  else if b < 0xE0 then some (⟨bomSeen, 1, 0x80, 0xBF, b.toNat % 32, [b]⟩, [])
  else if b < 0xF0 then
    some (⟨bomSeen, 2, if b = 0xE0 then 0xA0 else 0x80, if b = 0xED then 0x9F else 0xBF,
      b.toNat % 16, [b]⟩, [])
  else
    some (⟨bomSeen, 3, if b = 0xF0 then 0x90 else 0x80, if b = 0xF4 then 0x8F else 0xBF,
      b.toNat % 8, [b]⟩, [])

/-- One byte of `utf8_whatwg_decode`. -/
def utf8Byte (fatal ignoreBom : Bool) (dec : Utf8Dec) (b : UInt8) : Option (Utf8Dec × List Nat) :=
  if dec.bc = 0 then startByte fatal dec.bomSeen b
  else if b < dec.lo ∨ dec.hi < b then
    if fatal then none
    else (startByte fatal true b).map fun next => (next.1, fffd ++ next.2)
  else
    let cp := dec.cp * 64 + b.toNat % 64
    if dec.bc = 1 then
      if !dec.bomSeen && cp == 0xFEFF && !ignoreBom then some (.idle true, [])
      else some (.idle true, encodeChar cp)
    else some (⟨dec.bomSeen, dec.bc - 1, 0x80, 0xBF, cp, dec.pb ++ [b]⟩, [])

/-- The bytes one after the other; invalid data stops with the state so far. -/
def utf8Run (fatal ignoreBom : Bool) : Utf8Dec → List UInt8 → Option (List Nat) × Utf8Dec
  | dec, [] => (some [], dec)
  | dec, b :: rest =>
    match utf8Byte fatal ignoreBom dec b with
    | none => (none, dec)
    | some next =>
      let result := utf8Run fatal ignoreBom next.1 rest
      (result.1.map (next.2 ++ ·), result.2)

/-- `utf8_whatwg_decode`. -/
def utf8WhatwgDecode (fatal ignoreBom bomSeen : Bool) (src : List UInt8) (stream : Bool) :
    Decoded :=
  let result := utf8Run fatal ignoreBom (.idle bomSeen) src
  match result.1 with
  | none => ⟨none, result.2.bomSeen, []⟩
  | some out =>
    if result.2.bc = 0 then ⟨some out, result.2.bomSeen, []⟩
    else if stream then ⟨some out, result.2.bomSeen, result.2.pb⟩
    else if fatal then ⟨none, result.2.bomSeen, []⟩
    else ⟨some (out ++ fffd), result.2.bomSeen, []⟩

/-- `u16_read`. -/
def u16Read (be : Bool) (first second : UInt8) : Nat :=
  if be then first.toNat * 256 + second.toNat else second.toNat * 256 + first.toNat

/-- `U16_PAIR`. -/
def u16Pair (high low : Nat) : Nat :=
  0x10000 + (high - 0xD800) * 1024 + (low - 0xDC00)

/-- Output in front of what follows. -/
def withOutput (out : List Nat) (rest : List Nat × List UInt8) : List Nat × List UInt8 :=
  (out ++ rest.1, rest.2)

/-- What `utf16_decode` does at the end with bytes that make no whole code point. -/
def pendBytes (fatal stream : Bool) (left : List UInt8) (replacement : List Nat) :
    Option (List Nat × List UInt8) :=
  if stream then some ([], left) else if fatal then none else some (replacement, [])

/-- The loop of `utf16_decode`. -/
def utf16Loop (be fatal stream : Bool) : List UInt8 → Option (List Nat × List UInt8)
  | [] => some ([], [])
  | [b] => pendBytes fatal stream [b] fffd
  | b0 :: b1 :: rest =>
    if isHigh (u16Read be b0 b1) then
      match rest with
      | l0 :: l1 :: after =>
        if isLow (u16Read be l0 l1) then
          (utf16Loop be fatal stream after).map
            (withOutput (encodeChar (u16Pair (u16Read be b0 b1) (u16Read be l0 l1))))
        else if fatal then none
        else (utf16Loop be fatal stream (l0 :: l1 :: after)).map (withOutput fffd)
      | left => pendBytes fatal stream (b0 :: b1 :: left) (if left = [] then fffd else fffd ++ fffd)
    else if isLow (u16Read be b0 b1) then
      if fatal then none else (utf16Loop be fatal stream rest).map (withOutput fffd)
    else (utf16Loop be fatal stream rest).map (withOutput (encodeChar (u16Read be b0 b1)))
termination_by src => src.length
decreasing_by all_goals simp only [length_cons]; omega

/-- Whether a source starts with a byte order mark. -/
def startsWithBom (be : Bool) : List UInt8 → Bool
  | b0 :: b1 :: _ => u16Read be b0 b1 == 0xFEFF
  | _ => false

/-- The source after a byte order mark that is to be skipped. -/
def skipBom (be ignoreBom bomSeen : Bool) (src : List UInt8) : List UInt8 :=
  if !bomSeen && startsWithBom be src && !ignoreBom then src.drop 2 else src

/-- `utf16_decode`. -/
def utf16Decode (be fatal ignoreBom bomSeen : Bool) (src : List UInt8) (stream : Bool) : Decoded :=
  if bomSeen = false ∧ src.length < 2 then
    match pendBytes fatal stream src fffd with
    | none => ⟨none, bomSeen, []⟩
    | some (out, pending) => ⟨some out, bomSeen, pending⟩
  else
    match utf16Loop be fatal stream (skipBom be ignoreBom bomSeen src) with
    | none => ⟨none, true, []⟩
    | some (out, pending) => ⟨some out, true, pending⟩

/-- The table of `decode_windows_1252_byte`. -/
def windows1252Specials : List Nat :=
  [0x20AC, 0x0081, 0x201A, 0x0192, 0x201E, 0x2026, 0x2020, 0x2021,
   0x02C6, 0x2030, 0x0160, 0x2039, 0x0152, 0x008D, 0x017D, 0x008F,
   0x0090, 0x2018, 0x2019, 0x201C, 0x201D, 0x2022, 0x2013, 0x2014,
   0x02DC, 0x2122, 0x0161, 0x203A, 0x0153, 0x009D, 0x017E, 0x0178]

/-- `decode_windows_1252_byte`. -/
def decodeWindows1252Byte (byte : UInt8) : Nat :=
  if byte < 0x80 then byte.toNat
  else if byte < 0xA0 then windows1252Specials.getD (byte.toNat - 0x80) 0
  else byte.toNat

/-- The table of `decode_iso_8859_2_byte`. -/
def iso88592Upper : List Nat :=
  [0x00A0, 0x0104, 0x02D8, 0x0141, 0x00A4, 0x013D, 0x015A, 0x00A7,
   0x00A8, 0x0160, 0x015E, 0x0164, 0x0179, 0x00AD, 0x017D, 0x017B,
   0x00B0, 0x0105, 0x02DB, 0x0142, 0x00B4, 0x013E, 0x015B, 0x02C7,
   0x00B8, 0x0161, 0x015F, 0x0165, 0x017A, 0x02DD, 0x017E, 0x017C,
   0x0154, 0x00C1, 0x00C2, 0x0102, 0x00C4, 0x0139, 0x0106, 0x00C7,
   0x010C, 0x00C9, 0x0118, 0x00CB, 0x011A, 0x00CD, 0x00CE, 0x010E,
   0x0110, 0x0143, 0x0147, 0x00D3, 0x00D4, 0x0150, 0x00D6, 0x00D7,
   0x0158, 0x016E, 0x00DA, 0x0170, 0x00DC, 0x00DD, 0x0162, 0x00DF,
   0x0155, 0x00E1, 0x00E2, 0x0103, 0x00E4, 0x013A, 0x0107, 0x00E7,
   0x010D, 0x00E9, 0x0119, 0x00EB, 0x011B, 0x00ED, 0x00EE, 0x010F,
   0x0111, 0x0144, 0x0148, 0x00F3, 0x00F4, 0x0151, 0x00F6, 0x00F7,
   0x0159, 0x016F, 0x00FA, 0x0171, 0x00FC, 0x00FD, 0x0163, 0x02D9]

/-- `decode_iso_8859_2_byte`. -/
def decodeIso88592Byte (byte : UInt8) : Nat :=
  if byte < 0xA0 then byte.toNat else iso88592Upper.getD (byte.toNat - 0xA0) 0

/-- `decode_single_byte`. -/
def decodeSingleByte (decodeByte : UInt8 → Nat) (src : List UInt8) : List Nat :=
  src.flatMap fun byte => encodeChar (decodeByte byte)

/-- The byte order mark is forgotten after a last chunk that was valid. -/
def afterUtf16 (stream : Bool) (decoded : Decoded) : Decoded :=
  if decoded.out.isSome && !stream then { decoded with bomSeen := false } else decoded

/-- The branches of `td_decode` for the encodings. -/
def decodeAs (encoding : Encoding) (fatal ignoreBom bomSeen : Bool) (src : List UInt8)
    (stream : Bool) : Decoded :=
  match encoding with
  | .utf16le => afterUtf16 stream (utf16Decode false fatal ignoreBom bomSeen src stream)
  | .utf16be => afterUtf16 stream (utf16Decode true fatal ignoreBom bomSeen src stream)
  | .windows1252 => ⟨some (decodeSingleByte decodeWindows1252Byte src), false, []⟩
  | .iso88592 => ⟨some (decodeSingleByte decodeIso88592Byte src), false, []⟩
  | .utf8 =>
    let decoded := utf8WhatwgDecode fatal ignoreBom bomSeen src stream
    { decoded with bomSeen := stream && decoded.bomSeen }

/-- What `td_decode` makes of the pending bytes and the input together. -/
def decodeBytes (encoding : Encoding) (fatal ignoreBom bomSeen : Bool) (src : List UInt8)
    (stream : Bool) : Decoded :=
  if src = [] then ⟨some [], stream && bomSeen, []⟩
  else decodeAs encoding fatal ignoreBom bomSeen src stream

/-- The result of a call, with the error for data that was not valid. -/
def resultOf (out : Option (List Nat)) : Except String (List Nat) :=
  match out with
  | none => .error "The encoded data was not valid."
  | some out => .ok out

/-- `td_decode`. -/
def tdDecode (st : TdState) (input : List UInt8) (stream : Bool) : Except String (List Nat) ×
    TdState :=
  let decoded :=
    decodeBytes st.encoding st.fatal st.ignoreBom st.bomSeen (st.pending ++ input) stream
  (resultOf decoded.out,
    { st with bomSeen := decoded.bomSeen, pending := decoded.pending })

/-- The chunks are decoded with `stream: true`, then the decoder is flushed. -/
def decodeChunks : TdState → List (List UInt8) → Except String (List Nat)
  | st, [] => (tdDecode st [] false).1
  | st, chunk :: chunks =>
    match tdDecode st chunk true with
    | (.error message, _) => .error message
    | (.ok out, st) => (decodeChunks st chunks).map (out ++ ·)

end Model

/-- Where a source is cut makes no difference to a decoder. -/
def CutFree (decode : Bool → List UInt8 → Bool → Decoded) : Prop :=
  ∀ bomSeen first second, (decode bomSeen (first ++ second) false).out =
    (decode bomSeen first true).out.bind fun out =>
      (decode (decode bomSeen first true).bomSeen
        ((decode bomSeen first true).pending ++ second) false).out.map (out ++ ·)

section Parts

variable {src : List UInt8}

/-- A first byte is finished or the only one kept. -/
theorem startByte_cases {next : Utf8Dec × List Nat}
    (starts : startByte fatal bomSeen b = some next) :
    next.1 = .idle true ∨
      (next.1.bomSeen = bomSeen ∧ next.1.bc ≠ 0 ∧ next.1.pb = [b] ∧ next.2 = []) := by
  unfold startByte at starts
  split_ifs at starts <;> cases starts <;>
    first
    | exact Or.inl rfl
    | exact Or.inr ⟨rfl, Nat.succ_ne_zero _, rfl, rfl⟩

/-- Output that was there before stays in front. -/
theorem bind_withOutput (out : List Nat) (rest : Option (List Nat × List UInt8))
    (next : List UInt8 → Option (List Nat × List UInt8)) :
    (rest.map (withOutput out)).bind (fun result => (next result.2).map (withOutput result.1)) =
      (rest.bind fun result => (next result.2).map (withOutput result.1)).map (withOutput out) := by
  cases rest with
  | none => rfl
  | some result =>
    simp only [Option.map_some, Option.bind_some, Option.map_map]
    congr 1
    funext later
    simp [withOutput]

theorem length_lt_two (tooShort : ∀ l0 l1 after, src = l0 :: l1 :: after → False) :
    src.length < 2 := by
  match src with
  | [] => exact Nat.zero_lt_two
  | [_] => exact Nat.one_lt_two
  | l0 :: l1 :: after => exact (tooShort l0 l1 after rfl).elim

/-- With two bytes there, or a mark seen before, later bytes do not change what is skipped. -/
theorem skipBom_append {first : List UInt8} (ready : (bomSeen || decide (2 ≤ first.length)) = true)
    (second : List UInt8) :
    skipBom be ignoreBom bomSeen (first ++ second) = skipBom be ignoreBom bomSeen first ++
      second := by
  match bomSeen, first, ready with
  | true, _, _ => rfl
  | false, b0 :: b1 :: rest, _ =>
    unfold skipBom startsWithBom
    simp only [cons_append]
    split_ifs <;> rfl

theorem afterUtf16_out (stream : Bool) (decoded : Decoded) :
    (afterUtf16 stream decoded).out = decoded.out := by
  unfold afterUtf16
  split_ifs <;> rfl

theorem afterUtf16_stream (decoded : Decoded) : afterUtf16 true decoded = decoded := by
  rw [afterUtf16, Bool.not_true, Bool.and_false]
  rfl

theorem resultOf_map (adjust : List Nat → List Nat) (out : Option (List Nat)) :
    (resultOf out).map adjust = resultOf (out.map adjust) := by
  cases out <;> rfl

end Parts

section Utf8

variable [Utf8proc]
variable {fatal ignoreBom : Bool} {dec : Utf8Dec} {out : List Nat}
variable {first : List UInt8} {src : List UInt8}

theorem utf8Run_cons {next : Utf8Dec × List Nat}
    (reads : utf8Byte fatal ignoreBom dec b = some next)
    (rest : List UInt8) :
    utf8Run fatal ignoreBom dec (b :: rest) =
      ((utf8Run fatal ignoreBom next.1 rest).1.map (next.2 ++ ·),
        (utf8Run fatal ignoreBom next.1 rest).2) := by
  rw [utf8Run, reads]

/-- Invalid data stays invalid, whatever follows. -/
theorem utf8Run_append_none
    (invalid : (utf8Run fatal ignoreBom dec first).1 = none) (second : List UInt8) :
    (utf8Run fatal ignoreBom dec (first ++ second)).1 = none := by
  induction first generalizing dec with
  | nil => cases invalid
  | cons b first ih =>
    cases reads : utf8Byte fatal ignoreBom dec b with
    | none => rw [cons_append, utf8Run, reads]
    | some next =>
      rw [utf8Run_cons reads, map_eq_none_iff] at invalid
      rw [cons_append, utf8Run_cons reads, ih invalid]
      rfl

/-- The run goes on where it was. -/
theorem utf8Run_append
    (valid : (utf8Run fatal ignoreBom dec first).1 = some out) (second : List UInt8) :
    utf8Run fatal ignoreBom dec (first ++ second) =
      ((utf8Run fatal ignoreBom (utf8Run fatal ignoreBom dec first).2 second).1.map (out ++ ·),
        (utf8Run fatal ignoreBom (utf8Run fatal ignoreBom dec first).2 second).2) := by
  induction first generalizing dec out with
  | nil =>
    obtain rfl := Option.some.inj valid
    simp [utf8Run]
  | cons b first ih =>
    cases reads : utf8Byte fatal ignoreBom dec b with
    | none =>
      rw [utf8Run, reads] at valid
      cases valid
    | some next =>
      rw [utf8Run_cons reads, map_eq_some_iff] at valid
      obtain ⟨later, runs, rfl⟩ := valid
      rw [cons_append, utf8Run_cons reads, utf8Run_cons reads, ih runs]
      simp only [Option.map_map, Function.comp_def, append_assoc]

/-- The bytes kept lead to the state again, without output. -/
structure Restored (fatal ignoreBom : Bool) (dec : Utf8Dec) : Prop where
  replay : utf8Run fatal ignoreBom (.idle dec.bomSeen) dec.pb = (some [], dec)
  idle : dec.bc = 0 → dec = .idle dec.bomSeen

/-- An idle decoder has no bytes to keep. -/
theorem restored_idle (bomSeen : Bool) : Restored fatal ignoreBom (.idle bomSeen) :=
  ⟨rfl, fun _ => rfl⟩

/-- The byte that starts a sequence is kept. -/
theorem restored_startByte
    {b : UInt8} {next : Utf8Dec × List Nat} (starts : startByte fatal bomSeen b = some next) :
    Restored fatal ignoreBom next.1 := by
  rcases startByte_cases starts with finished | ⟨sameSeen, isOpen, kept, silent⟩
  · rw [finished]
    exact restored_idle true
  · have reads : utf8Byte fatal ignoreBom (.idle bomSeen) b = some next := starts
    refine ⟨?_, fun closed => absurd closed isOpen⟩
    rw [sameSeen, kept, utf8Run_cons reads, silent]
    rfl

/-- Every byte that is read leaves the decoder so that its bytes restore it. -/
theorem restored_utf8Byte {next : Utf8Dec × List Nat} (restored : Restored fatal ignoreBom dec)
    (reads : utf8Byte fatal ignoreBom dec b = some next) :
    Restored fatal ignoreBom next.1 := by
  have readsAgain := reads
  unfold utf8Byte at reads
  simp only at reads
  split_ifs at reads with notOpen _ _ last
  · exact restored_startByte reads
  · obtain ⟨started, starts, rfl⟩ := map_eq_some_iff.mp reads
    exact @restored_startByte _ fatal ignoreBom true b started starts
  · cases reads
    exact restored_idle true
  · cases reads
    exact restored_idle true
  · -- The sequence goes on: its bytes so far lead to the state, and this one further.
    cases reads
    have again := utf8Run_append (congrArg Prod.fst restored.replay) [b]
    rw [congrArg Prod.snd restored.replay, utf8Run_cons readsAgain] at again
    refine ⟨again, fun closed => ?_⟩
    change dec.bc - 1 = 0 at closed
    omega

/-- A run leaves the decoder so that its bytes restore it. -/
theorem restored_utf8Run (restored : Restored fatal ignoreBom dec)
    (runs : (utf8Run fatal ignoreBom dec src).1 = some out) :
    Restored fatal ignoreBom (utf8Run fatal ignoreBom dec src).2 := by
  induction src generalizing dec out with
  | nil => exact restored
  | cons b rest ih =>
    cases reads : utf8Byte fatal ignoreBom dec b with
    | none =>
      rw [utf8Run, reads] at runs
      cases runs
    | some next =>
      rw [utf8Run_cons reads, map_eq_some_iff] at runs
      obtain ⟨later, laterRuns, -⟩ := runs
      rw [utf8Run_cons reads]
      exact ih (restored_utf8Byte restored reads) laterRuns

/-- What is left of a valid source restores the state it led to. -/
theorem utf8WhatwgDecode_stream
    (valid : (utf8Run fatal ignoreBom (.idle bomSeen) src).1 = some out) :
    ∃ seen left, utf8WhatwgDecode fatal ignoreBom bomSeen src true = ⟨some out, seen, left⟩ ∧
      utf8Run fatal ignoreBom (.idle seen) left =
        (some [], (utf8Run fatal ignoreBom (.idle bomSeen) src).2) := by
  have restored := restored_utf8Run (restored_idle bomSeen) valid
  generalize decEq : (utf8Run fatal ignoreBom (.idle bomSeen) src).2 = dec at restored
  rw [utf8WhatwgDecode]
  simp only [valid, decEq]
  by_cases closed : dec.bc = 0
  · rw [if_pos closed]
    refine ⟨_, _, rfl, ?_⟩
    rw [← restored.idle closed]
    rfl
  · rw [if_neg closed]
    exact ⟨_, _, rfl, restored.replay⟩

/-- Where UTF-8 input is cut does not matter. -/
theorem utf8WhatwgDecode_cutFree : CutFree (utf8WhatwgDecode fatal ignoreBom) := by
  intro bomSeen first second
  cases valid : (utf8Run fatal ignoreBom (.idle bomSeen) first).1 with
  | none =>
    have whole := utf8Run_append_none valid second
    simp only [utf8WhatwgDecode, valid, whole, bind_none]
  | some out =>
    obtain ⟨seen, left, streams, replays⟩ := utf8WhatwgDecode_stream valid
    have again : (utf8Run fatal ignoreBom (.idle seen) left).1 = some [] :=
      congrArg Prod.fst replays
    have state := congrArg Prod.snd replays
    rw [streams, utf8WhatwgDecode, utf8WhatwgDecode, utf8Run_append valid,
      utf8Run_append again, state]
    cases (utf8Run fatal ignoreBom (utf8Run fatal ignoreBom (.idle bomSeen) first).2 second).1 with
    | none => rfl
    | some rest =>
      split_ifs <;> simp

end Utf8

section Utf16

variable [Utf8proc]
variable {be fatal ignoreBom : Bool} {bomSeen : Bool}
variable {src : List UInt8}

theorem utf16Loop_basic (notHigh : ¬isHigh (u16Read be b0 b1) = true) (rest : List UInt8) :
    utf16Loop be fatal stream (b0 :: b1 :: rest) =
      if isLow (u16Read be b0 b1) then
        if fatal then none else (utf16Loop be fatal stream rest).map (withOutput fffd)
      else (utf16Loop be fatal stream rest).map (withOutput (encodeChar (u16Read be b0 b1))) := by
  rw [utf16Loop.eq_def]
  exact if_neg notHigh

theorem utf16Loop_pair
    (high : isHigh (u16Read be b0 b1) = true) (l0 l1 : UInt8) (after : List UInt8) :
    utf16Loop be fatal stream (b0 :: b1 :: l0 :: l1 :: after) =
      if isLow (u16Read be l0 l1) then
        (utf16Loop be fatal stream after).map
          (withOutput (encodeChar (u16Pair (u16Read be b0 b1) (u16Read be l0 l1))))
      else if fatal then none
      else (utf16Loop be fatal stream (l0 :: l1 :: after)).map (withOutput fffd) := by
  rw [utf16Loop.eq_def]
  exact if_pos high

/-- The end of the UTF-16 loop at a high surrogate with less than a code unit behind it. -/
theorem utf16Loop_short
    (high : isHigh (u16Read be b0 b1) = true) {left : List UInt8} (short : left.length < 2) :
    utf16Loop be fatal stream (b0 :: b1 :: left) =
      pendBytes fatal stream (b0 :: b1 :: left) (if left = [] then fffd else fffd ++ fffd) := by
  rw [utf16Loop.eq_def]
  cases left with
  | nil => exact if_pos high
  | cons l0 left =>
    cases left with
    | nil => exact if_pos high
    | cons l1 after =>
      simp only [length_cons] at short
      omega

/-- The loop goes on with the bytes it left. -/
theorem utf16Loop_append (first second : List UInt8) :
    utf16Loop be fatal false (first ++ second) =
      (utf16Loop be fatal true first).bind fun result =>
        (utf16Loop be fatal false (result.2 ++ second)).map (withOutput result.1) := by
  have unchanged (rest : Option (List Nat × List UInt8)) : rest = rest.map (withOutput []) := by
    cases rest <;> rfl
  induction first using utf16Loop.induct be fatal with
  | case1 =>
    rw [utf16Loop]
    exact unchanged _
  | case2 b =>
    rw [utf16Loop, pendBytes, if_pos rfl]
    exact unchanged _
  | case3 b0 b1 high l0 l1 after low ih =>
    simp only [cons_append, utf16Loop_pair high, low, if_true]
    rw [ih, bind_withOutput _ _ fun left => utf16Loop be fatal false (left ++ second)]
  | case4 b0 b1 high l0 l1 after notLow isFatal =>
    simp only [cons_append, utf16Loop_pair high, if_neg notLow, if_pos isFatal, bind_none]
  | case5 b0 b1 high l0 l1 after notLow notFatal ih =>
    simp only [cons_append, utf16Loop_pair high, if_neg notLow, if_neg notFatal]
    rw [cons_append, cons_append] at ih
    rw [ih, bind_withOutput _ _ fun left => utf16Loop be fatal false (left ++ second)]
  | case6 b0 b1 high left tooShort =>
    rw [utf16Loop_short high (length_lt_two tooShort), pendBytes, if_pos rfl]
    exact unchanged _
  | case7 b0 b1 rest notHigh low isFatal =>
    simp only [cons_append, utf16Loop_basic notHigh, if_pos low, if_pos isFatal, bind_none]
  | case8 b0 b1 rest notHigh low notFatal ih =>
    simp only [cons_append, utf16Loop_basic notHigh, if_pos low, if_neg notFatal]
    rw [ih, bind_withOutput _ _ fun left => utf16Loop be fatal false (left ++ second)]
  | case9 b0 b1 rest notHigh notLow ih =>
    simp only [cons_append, utf16Loop_basic notHigh, if_neg notLow]
    rw [ih, bind_withOutput _ _ fun left => utf16Loop be fatal false (left ++ second)]

/-- The fields that `utf16_decode` leaves. -/
theorem utf16Decode_fields (started : src = [] → bomSeen = true) (stream : Bool) :
    (utf16Decode be fatal ignoreBom bomSeen src stream).out =
        (utf16Loop be fatal stream (skipBom be ignoreBom bomSeen src)).map Prod.fst ∧
      (utf16Decode be fatal ignoreBom bomSeen src stream).pending =
        ((utf16Loop be fatal stream (skipBom be ignoreBom bomSeen src)).map Prod.snd).getD [] ∧
      (utf16Decode be fatal ignoreBom bomSeen src stream).bomSeen =
        (bomSeen || decide (2 ≤ src.length)) := by
  unfold utf16Decode
  split_ifs with waits
  · match src, bomSeen, started, waits with
    | [], false, started, _ => exact absurd (started rfl) Bool.false_ne_true
    | [b], false, _, _ =>
      have kept : skipBom be ignoreBom false [b] = [b] := by simp [skipBom, startsWithBom]
      rw [kept, utf16Loop]
      cases pendBytes fatal stream [b] fffd <;> exact ⟨rfl, rfl, rfl⟩
  · have seen : (bomSeen || decide (2 ≤ src.length)) = true := by
      cases bomSeen with
      | true => rfl
      | false => exact decide_eq_true (Nat.not_lt.mp fun short => waits ⟨rfl, short⟩)
    rw [seen]
    cases utf16Loop be fatal stream (skipBom be ignoreBom bomSeen src) <;> exact ⟨rfl, rfl, rfl⟩

/-- Without a whole unit nothing is decoded. -/
theorem utf16Decode_waiting (waits : (bomSeen || decide (2 ≤ src.length)) = false) :
    utf16Decode be fatal ignoreBom bomSeen src true = ⟨some [], bomSeen, src⟩ := by
  rw [Bool.or_eq_false_iff, decide_eq_false_iff_not, Nat.not_le] at waits
  rw [utf16Decode, if_pos waits, pendBytes, if_pos rfl]

/-- Where UTF-16 input is cut does not matter. -/
theorem utf16Decode_cutFree : CutFree (utf16Decode be fatal ignoreBom) := by
  intro bomSeen first second
  cases ready : bomSeen || decide (2 ≤ first.length) with
  | false =>
    rw [utf16Decode_waiting ready]
    cases (utf16Decode be fatal ignoreBom bomSeen (first ++ second) false).out <;> rfl
  | true =>
    have started : first = [] → bomSeen = true := fun empty => by simpa [empty] using ready
    have startedWhole : first ++ second = [] → bomSeen = true :=
      fun empty => started (append_eq_nil_iff.mp empty).1
    obtain ⟨outEq, pendingEq, seenEq⟩ :=
      @utf16Decode_fields _ be fatal ignoreBom bomSeen first started true
    rw [(utf16Decode_fields startedWhole false).1, skipBom_append ready, utf16Loop_append, outEq,
      pendingEq, seenEq, ready]
    cases utf16Loop be fatal true (skipBom be ignoreBom bomSeen first) with
    | none => rfl
    | some result =>
      simp only [Option.bind_some, Option.map_some, getD_some,
        utf16Decode_fields (fun _ => rfl), Option.map_map]
      rfl

end Utf16

section Chunks

variable [Utf8proc]
variable {encoding : Encoding} {src : List UInt8} {out : List Nat}

/-- Where input is cut does not matter in any encoding. -/
theorem decodeAs_cutFree : CutFree (decodeAs encoding fatal ignoreBom) := by
  intro bomSeen first second
  cases encoding with
  | utf8 => exact utf8WhatwgDecode_cutFree bomSeen first second
  | utf16le | utf16be =>
    simp only [decodeAs, afterUtf16_stream, afterUtf16_out]
    exact utf16Decode_cutFree bomSeen first second
  | windows1252 | iso88592 => exact congrArg some flatMap_append

/-- Once all bytes of a source are decoded, the end adds nothing. -/
theorem utf16Decode_finished (nonempty : src ≠ [])
    (finished : (utf16Decode be fatal ignoreBom bomSeen src true).pending = []) :
    (utf16Decode be fatal ignoreBom (utf16Decode be fatal ignoreBom bomSeen src true).bomSeen
      [] false).out = some [] := by
  rw [(utf16Decode_fields (fun empty => absurd empty nonempty) true).2.2]
  cases ready : bomSeen || decide (2 ≤ src.length) with
  | false =>
    rw [utf16Decode_waiting ready] at finished
    exact absurd finished nonempty
  | true =>
    rw [(utf16Decode_fields (fun _ => rfl) false).1]
    change (utf16Loop be fatal false []).map Prod.fst = some []
    rw [utf16Loop]
    rfl

/-- A last call without bytes has nothing to say if nothing is pending. -/
theorem decodeAs_finished (nonempty : src ≠ [])
    (finished : (decodeAs encoding fatal ignoreBom bomSeen src true).pending = []) :
    (decodeAs encoding fatal ignoreBom (decodeAs encoding fatal ignoreBom bomSeen src true).bomSeen
      [] false).out = some [] := by
  cases encoding with
  | utf8 => rfl
  | utf16le | utf16be =>
    simp only [decodeAs, afterUtf16_stream, afterUtf16_out] at finished ⊢
    exact utf16Decode_finished nonempty finished
  | windows1252 | iso88592 => rfl

/-- Where input is cut does not matter for a decoder of any encoding. -/
theorem decodeBytes_cutFree : CutFree (decodeBytes encoding fatal ignoreBom) := by
  intro bomSeen first second
  by_cases nonempty : first = []
  · subst nonempty
    have starts : decodeBytes encoding fatal ignoreBom bomSeen [] true =
        ⟨some [], bomSeen, []⟩ := by
      rw [decodeBytes, if_pos rfl, Bool.true_and]
    simp [starts]
  · have wholeNonempty : first ++ second ≠ [] :=
      fun empty => nonempty (append_eq_nil_iff.mp empty).1
    rw [decodeBytes, if_neg wholeNonempty, decodeAs_cutFree, decodeBytes, if_neg nonempty]
    cases valid : (decodeAs encoding fatal ignoreBom bomSeen first true).out with
    | none => rfl
    | some out =>
      unfold decodeBytes
      split_ifs with empty
      · obtain ⟨finished, rfl⟩ := append_eq_nil_iff.mp empty
        rw [empty, decodeAs_finished nonempty finished]
      · rfl

/-- The decoder is a scanner resumed with the pending bytes. -/
def scanner (encoding : Encoding) (fatal ignoreBom : Bool) : Machine.Resumable Bool UInt8 Nat where
  scan bomSeen src :=
    (decodeBytes encoding fatal ignoreBom bomSeen src true).out.map fun out =>
      (out, (decodeBytes encoding fatal ignoreBom bomSeen src true).bomSeen,
        (decodeBytes encoding fatal ignoreBom bomSeen src true).pending)
  close bomSeen src := (decodeBytes encoding fatal ignoreBom bomSeen src false).out
  resumes bomSeen first second := by
    rw [decodeBytes_cutFree, bind_map]
    rfl

/-- The decoder takes its chunks as the scanner does. -/
theorem decodeChunks_eq_inPieces (st : TdState) (chunks : List (List UInt8)) :
    decodeChunks st chunks = resultOf
      ((scanner st.encoding st.fatal st.ignoreBom).inPieces st.bomSeen st.pending chunks) := by
  induction chunks generalizing st with
  | nil =>
    rw [decodeChunks, tdDecode, append_nil]
    rfl
  | cons chunk chunks ih =>
    rw [decodeChunks, tdDecode]
    change _ = resultOf (((decodeBytes st.encoding st.fatal st.ignoreBom st.bomSeen
      (st.pending ++ chunk) true).out.map _).bind _)
    cases (decodeBytes st.encoding st.fatal st.ignoreBom st.bomSeen
      (st.pending ++ chunk) true).out with
    | none => rfl
    | some out =>
      change (decodeChunks _ chunks).map (out ++ ·) = _
      rw [ih, resultOf_map]
      rfl

/-- Decoding an input in chunks and then flushing the decoder gives what decoding it at once
gives, for every encoding and every setting. -/
theorem decodeChunks_eq_tdDecode
    (encoding : Encoding) (fatal ignoreBom : Bool) (chunks : List (List UInt8)) :
    decodeChunks (tdStateNew encoding fatal ignoreBom) chunks =
      (tdDecode (tdStateNew encoding fatal ignoreBom) chunks.flatten false).1 := by
  rw [decodeChunks_eq_inPieces, Machine.Resumable.inPieces_eq]
  rfl

end Chunks

end AntRuntime.TextCodec
