import AntRuntime.TextCodec.Decoder

/-!
# UTF-16 against the standard

The decoder that UTF-16LE and UTF-16BE share in the Encoding Standard reads one byte at a
time and keeps a lead byte and a leading surrogate. The loop of `utf16_decode` gives the same
code points and errors, except for a leading surrogate with one byte behind it at the end,
for which it writes two replacement characters instead of one.

A call without `stream: true` leaves no pending bytes. It also forgets that the byte order
mark was looked for, unless UTF-16 data was refused: `td_decode` returns the error before it
clears `bom_seen`, so that the next input keeps its byte order mark.
-/

namespace AntRuntime.TextCodec

open Text List
open Utf8proc (encodeChar encodeChar_eq)

section Standard

/-- The shared UTF-16 decoder of the standard, from a lead byte and a leading surrogate on: a
code point or an error at each place. The bytes of a unit that is no trailing surrogate
are put back. -/
def sharedDecoder (be : Bool) : Option UInt8 → Option Nat → List UInt8 → List (Option Nat)
  | none, none, [] => []
  | _, _, [] => [none]
  | none, leading, byte :: rest => sharedDecoder be (some byte) leading rest
  | some lead, some high, byte :: rest =>
    if isLow (u16Read be lead byte) then
      some (u16Pair high (u16Read be lead byte)) :: sharedDecoder be none none rest
    else none :: sharedDecoder be none none (lead :: byte :: rest)
  | some lead, none, byte :: rest =>
    if isHigh (u16Read be lead byte) then sharedDecoder be none (some (u16Read be lead byte)) rest
    else if isLow (u16Read be lead byte) then none :: sharedDecoder be none none rest
    else some (u16Read be lead byte) :: sharedDecoder be none none rest
termination_by lead leading bytes =>
  4 * bytes.length + 3 * lead.toList.length + 2 * leading.toList.length
decreasing_by all_goals simp only [length_cons, Option.toList]; simp; try omega

/-- What the standard makes of the bytes. -/
abbrev decoded (be : Bool) (bytes : List UInt8) : List (Option Nat) :=
  sharedDecoder be none none bytes

/-- The text, with a replacement character for each error. -/
def standardText (be : Bool) (bytes : List UInt8) : List Nat :=
  (decoded be bytes).map (·.getD 0xFFFD)

/-- The bytes end with a leading surrogate and one byte more. -/
def endsInHigh (be : Bool) : List UInt8 → Bool
  | [b0, b1, _] => isHigh (u16Read be b0 b1)
  | _ :: _ :: rest => endsInHigh be rest
  | _ => false

end Standard

section Loop

variable {src rest : List UInt8}

theorem decoded_basic (notHigh : ¬isHigh (u16Read be b0 b1) = true) (rest : List UInt8) :
    decoded be (b0 :: b1 :: rest) =
      (if isLow (u16Read be b0 b1) then none else some (u16Read be b0 b1)) :: decoded be rest := by
  rw [decoded, sharedDecoder, sharedDecoder]
  split_ifs <;> rfl

theorem decoded_pair (high : isHigh (u16Read be b0 b1) = true) (l0 l1 : UInt8)
    (after : List UInt8) :
    decoded be (b0 :: b1 :: l0 :: l1 :: after) =
      if isLow (u16Read be l0 l1) then
        some (u16Pair (u16Read be b0 b1) (u16Read be l0 l1)) :: decoded be after
      else none :: decoded be (l0 :: l1 :: after) := by
  rw [decoded, sharedDecoder, sharedDecoder, if_pos high, sharedDecoder, sharedDecoder]

/-- What the standard decodes at a high surrogate with less than a code unit behind it. -/
theorem decoded_short (high : isHigh (u16Read be b0 b1) = true) (short : rest.length < 2) :
    decoded be (b0 :: b1 :: rest) = [none] := by
  rw [decoded, sharedDecoder, sharedDecoder, if_pos high]
  match rest, short with
  | [], _ => rw [sharedDecoder]; simp
  | [_], _ => rw [sharedDecoder, sharedDecoder]; simp

/-- The first code unit does not decide how the input ends, unless it is a high surrogate
with one byte behind it. -/
theorem endsInHigh_cons (inside : ¬isHigh (u16Read be b0 b1) = true ∨ rest.length ≠ 1) :
    endsInHigh be (b0 :: b1 :: rest) = endsInHigh be rest := by
  match rest with
  | [] => rfl
  | [_] => exact Bool.eq_false_iff.mpr (inside.resolve_right (not_not.mpr rfl))
  | _ :: _ :: _ => rfl

theorem utf8Bytes_replacement : utf8Bytes ((none : Option Nat).getD 0xFFFD) = fffd := by
  decide

/-- A code unit that is no surrogate is encoded as its code point. -/
theorem encodeChar_basic [Utf8proc] (notHigh : ¬isHigh (u16Read be b0 b1) = true)
    (notLow : ¬isLow (u16Read be b0 b1) = true) :
    encodeChar (u16Read be b0 b1) = utf8Bytes (u16Read be b0 b1) := by
  have small : u16Read be b0 b1 < 0x10000 := by
    have first := b0.toNat_lt
    have second := b1.toNat_lt
    unfold u16Read
    split_ifs <;> omega
  exact encodeChar_eq _ (by omega) (Bool.eq_false_iff.mpr notHigh) (Bool.eq_false_iff.mpr notLow)

/-- A pair of surrogates is encoded as its code point. -/
theorem encodeChar_pair [Utf8proc] (isFirst : isHigh high = true) (isSecond : isLow low = true) :
    encodeChar (u16Pair high low) = utf8Bytes (u16Pair high low) := by
  simp only [isHigh, isLow, Bool.and_eq_true, decide_eq_true_eq] at isFirst isSecond
  have supplementary : ¬u16Pair high low < 0x10000 := by
    unfold u16Pair
    omega
  have valid : u16Pair high low < 0x110000 := by
    unfold u16Pair
    omega
  exact encodeChar_eq _ valid (not_isHigh_supplementary supplementary)
    (not_isLow_supplementary supplementary)

section

variable [Utf8proc]

/-- The loop writes what the standard prescribes, and one more replacement character behind
a leading surrogate with one byte at the end. -/
def Agrees (be fatal : Bool) (src : List UInt8) : Prop :=
  utf16Loop be fatal false src =
    if fatal = true ∧ none ∈ decoded be src then none
    else some (utf8 (standardText be src) ++ (if endsInHigh be src then fffd else []), [])

/-- A place that is decoded and written in the same way carries the agreement over. -/
theorem Agrees.step {place : Option Nat} (agrees : Agrees be fatal rest)
    (places : decoded be src = place :: decoded be rest)
    (runs : utf16Loop be fatal false src =
      (utf16Loop be fatal false rest).map (withOutput (utf8Bytes (place.getD 0xFFFD))))
    (ends : endsInHigh be src = endsInHigh be rest) (valid : fatal = true → place ≠ none) :
    Agrees be fatal src := by
  have same : (fatal = true ∧ none ∈ decoded be src) ↔ (fatal = true ∧ none ∈ decoded be rest) := by
    rw [places, mem_cons]
    exact and_congr_right fun isFatal => or_iff_right (valid isFatal).symm
  rw [Agrees, runs, agrees, ends, standardText, standardText, places, map_cons, utf8_cons,
    append_assoc]
  rw [places] at same
  simp only [same]
  split_ifs <;> rfl

/-- At the end of the input the loop writes a replacement character for what is left. -/
theorem agrees_pendBytes {left : List UInt8} {replacement : List Nat}
    (runs : utf16Loop be fatal false src = pendBytes fatal false left replacement)
    (places : decoded be src = [none])
    (writes : replacement = fffd ++ (if endsInHigh be src then fffd else [])) :
    Agrees be fatal src := by
  rw [Agrees, runs, standardText, places, writes, pendBytes]
  cases fatal <;> rfl

/-- The loop agrees with the standard but for one replacement character. -/
theorem utf16Loop_agrees (be fatal : Bool) (src : List UInt8) : Agrees be fatal src := by
  induction src using utf16Loop.induct be fatal with
  | case1 =>
    rw [Agrees, utf16Loop, standardText, decoded, sharedDecoder,
      if_neg fun refused => not_mem_nil refused.2]
    rfl
  | case2 b =>
    refine agrees_pendBytes (utf16Loop.eq_2 ..) ?_ rfl
    rw [decoded, sharedDecoder, sharedDecoder]
    simp
  | case3 b0 b1 high l0 l1 after low ih =>
    have notHigh : ¬isHigh (u16Read be l0 l1) = true := by
      simp only [isLow, isHigh, Bool.and_eq_true, decide_eq_true_eq] at low ⊢
      omega
    refine ih.step ((decoded_pair high l0 l1 after).trans (if_pos low))
      ?_ ?_ fun _ => Option.some_ne_none _
    · rw [utf16Loop_pair high, if_pos low, encodeChar_pair high low, Option.getD_some]
    · rw [endsInHigh_cons (Or.inr (by simp)), endsInHigh_cons (Or.inl notHigh)]
  | case4 b0 b1 high l0 l1 after notLow isFatal =>
    rw [Agrees, utf16Loop_pair high, decoded_pair high, if_neg notLow, if_neg notLow,
      if_pos isFatal,
      if_pos ⟨isFatal, mem_cons_self⟩]
  | case5 b0 b1 high l0 l1 after notLow notFatal ih =>
    refine ih.step ((decoded_pair high l0 l1 after).trans (if_neg notLow)) ?_
      (endsInHigh_cons (Or.inr (by simp))) fun isFatal => absurd isFatal notFatal
    rw [utf16Loop_pair high, if_neg notLow, if_neg notFatal, utf8Bytes_replacement]
  | case6 b0 b1 high left tooShort =>
    have short := length_lt_two tooShort
    refine agrees_pendBytes (utf16Loop_short high short) (decoded_short high short) ?_
    rcases left with _ | ⟨b, _ | ⟨_, _⟩⟩
    · rfl
    · rw [endsInHigh, high]
      rfl
    · exact absurd short (by simp)
  | case7 b0 b1 rest notHigh low isFatal =>
    rw [Agrees, utf16Loop_basic notHigh, decoded_basic notHigh, if_pos low, if_pos low,
      if_pos isFatal,
      if_pos ⟨isFatal, mem_cons_self⟩]
  | case8 b0 b1 rest notHigh low notFatal ih =>
    refine ih.step (decoded_basic notHigh rest) ?_ (endsInHigh_cons (Or.inl notHigh))
      fun isFatal => absurd isFatal notFatal
    rw [utf16Loop_basic notHigh, if_pos low, if_pos low, if_neg notFatal, utf8Bytes_replacement]
  | case9 b0 b1 rest notHigh notLow ih =>
    refine ih.step (decoded_basic notHigh rest) ?_ (endsInHigh_cons (Or.inl notHigh)) fun _ => ?_
    · rw [utf16Loop_basic notHigh, if_neg notLow, if_neg notLow, encodeChar_basic notHigh notLow,
        Option.getD_some]
    · rw [if_neg notLow]
      exact Option.some_ne_none _

end

end Loop

section Decoders

variable {src : List UInt8}

/-- The encoding of UTF-16 with the high byte first, or last. -/
def utf16Encoding (be : Bool) : Encoding :=
  if be then .utf16be else .utf16le

section

variable [Utf8proc]

/-- On input that is not empty the shared decoder is called. -/
theorem decodeBytes_utf16 (nonempty : src ≠ []) :
    decodeBytes (utf16Encoding be) fatal ignoreBom bomSeen src stream =
      afterUtf16 stream (utf16Decode be fatal ignoreBom bomSeen src stream) := by
  rw [decodeBytes, if_neg nonempty]
  cases be <;> rfl

/-- Without `fatal` the decoder gives the text of the standard exactly if the bytes behind
the byte order mark do not end with a leading surrogate and one byte more. -/
theorem tdDecode_eq_standardText_iff (be ignoreBom : Bool) (bytes : List UInt8) :
    (tdDecode (tdStateNew (utf16Encoding be) false ignoreBom) bytes false).1 =
        .ok (utf8 (standardText be (skipBom be ignoreBom false bytes))) ↔
      endsInHigh be (skipBom be ignoreBom false bytes) = false := by
  have gives : (tdDecode (tdStateNew (utf16Encoding be) false ignoreBom) bytes false).1 =
      .ok (utf8 (standardText be (skipBom be ignoreBom false bytes)) ++
        if endsInHigh be (skipBom be ignoreBom false bytes) then fffd else []) := by
    change resultOf (decodeBytes (utf16Encoding be) false ignoreBom false bytes false).out = _
    by_cases empty : bytes = []
    · simp [empty, decodeBytes, resultOf, skipBom, standardText, sharedDecoder, endsInHigh, utf8]
    · rw [decodeBytes_utf16 empty, afterUtf16_out, (utf16Decode_fields (absurd · empty) false).1,
        utf16Loop_agrees]
      rfl
  rw [gives, Except.ok.injEq]
  cases endsInHigh be (skipBom be ignoreBom false bytes) <;> simp [fffd]

end

/-- A leading surrogate and one byte give two replacement characters. -/
theorem tdDecode_ne_standardText_cut :
    (@tdDecode exactUtf8 (tdStateNew .utf16le false false) [0x3D, 0xD8, 0x00] false).1 ≠
      .ok (utf8 (standardText false [0x3D, 0xD8, 0x00])) := by
  simp [tdDecode, tdStateNew, decodeBytes, decodeAs, afterUtf16, utf16Decode, skipBom,
    startsWithBom,
    u16Read, utf16Loop, isHigh, pendBytes, resultOf, standardText, sharedDecoder, utf8,
    utf8Bytes, fffd]

end Decoders

section Reset

variable {st : TdState} {be : Bool}

/-- A new decoder with the same options. -/
def TdState.renewed (st : TdState) : TdState :=
  tdStateNew st.encoding st.fatal st.ignoreBom

/-- The decoder, with another `bom_seen`. -/
def TdState.marked (st : TdState) (bomSeen : Bool) : TdState :=
  { st with bomSeen }

/-- The byte order mark, as the encoding of UTF-16 writes it. -/
def bomBytes (be : Bool) : List UInt8 :=
  if be then [0xFE, 0xFF] else [0xFF, 0xFE]

/-- The standard finds an error in UTF-16 data, which is refused after the first unit was
looked at for a byte order mark. -/
def RefusedAfterMark (st : TdState) (bytes : List UInt8) : Prop :=
  ∃ be, st.encoding = utf16Encoding be ∧ st.fatal = true ∧
    none ∈ decoded be (skipBom be st.ignoreBom st.bomSeen bytes) ∧
    (st.bomSeen = true ∨ 2 ≤ bytes.length)

theorem utf16Encoding_injective (same : utf16Encoding be = utf16Encoding other) :
    be = other := by
  cases be <;> cases other <;> first | rfl | cases same

theorem afterUtf16_pending (stream : Bool) (decoded : Decoded) :
    (afterUtf16 stream decoded).pending = decoded.pending := by
  unfold afterUtf16
  split_ifs <;> rfl

section

variable [Utf8proc]

/-- The answers to further calls, each with its input and its `stream` option. -/
def answers : TdState → List (List UInt8 × Bool) → List (Except String (List Nat))
  | _, [] => []
  | st, call :: calls =>
    (tdDecode st call.1 call.2).1 :: answers (tdDecode st call.1 call.2).2 calls

/-- After a last chunk the decoder answers every later call as a new one. -/
def Resets (st : TdState) (input : List UInt8) : Prop :=
  ∀ calls, answers (tdDecode st input false).2 calls = answers st.renewed calls

/-- After a last chunk nothing is pending, and a mark is remembered only if the chunk was
refused behind it. -/
theorem utf16Decode_closed
    {src : List UInt8} (isUtf16 : st.encoding = utf16Encoding be) (nonempty : src ≠ []) :
    (decodeBytes st.encoding st.fatal st.ignoreBom st.bomSeen src false).pending = [] ∧
      ((decodeBytes st.encoding st.fatal st.ignoreBom st.bomSeen src false).bomSeen = true ↔
        RefusedAfterMark st src) := by
  obtain ⟨outEq, pendingEq, seenEq⟩ :=
    @utf16Decode_fields _ be st.fatal st.ignoreBom st.bomSeen src (absurd · nonempty) false
  rw [utf16Loop_agrees] at outEq pendingEq
  rw [isUtf16, decodeBytes_utf16 nonempty, afterUtf16]
  by_cases refused : st.fatal = true ∧ none ∈ decoded be (skipBom be st.ignoreBom st.bomSeen src)
  · rw [if_pos refused] at outEq pendingEq
    rw [outEq, if_neg (by simp), seenEq, Bool.or_eq_true, decide_eq_true_iff]
    refine ⟨pendingEq, fun seen => ⟨be, isUtf16, refused.1, refused.2, seen⟩, ?_⟩
    rintro ⟨-, -, -, -, seen⟩
    exact seen
  · rw [if_neg refused] at outEq pendingEq
    rw [outEq]
    refine ⟨pendingEq, iff_of_false Bool.false_ne_true ?_⟩
    rintro ⟨other, isOther, isFatal, error, -⟩
    obtain rfl := utf16Encoding_injective (isUtf16.symm.trans isOther)
    exact refused ⟨isFatal, error⟩

/-- What is kept after a last chunk. -/
theorem decodeBytes_closed (st : TdState) (src : List UInt8) :
    (decodeBytes st.encoding st.fatal st.ignoreBom st.bomSeen src false).pending = [] ∧
      ((decodeBytes st.encoding st.fatal st.ignoreBom st.bomSeen src false).bomSeen = true ↔
        RefusedAfterMark st src) := by
  by_cases nonempty : src = []
  · subst nonempty
    refine ⟨rfl, iff_of_false Bool.false_ne_true ?_⟩
    rintro ⟨be, -, -, error, -⟩
    simp [skipBom, sharedDecoder] at error
  · by_cases utf16 : ∃ be, st.encoding = utf16Encoding be
    · obtain ⟨be, isUtf16⟩ := utf16
      exact utf16Decode_closed isUtf16 nonempty
    · have notRefused : ¬RefusedAfterMark st src := by
        rintro ⟨be, isUtf16, -⟩
        exact utf16 ⟨be, isUtf16⟩
      rw [decodeBytes, if_neg nonempty]
      cases encoding : st.encoding with
      | utf16le => exact absurd ⟨false, encoding⟩ utf16
      | utf16be => exact absurd ⟨true, encoding⟩ utf16
      | windows1252 | iso88592 => exact ⟨rfl, iff_of_false Bool.false_ne_true notRefused⟩
      | utf8 =>
        refine ⟨?_, iff_of_false Bool.false_ne_true notRefused⟩
        change (utf8WhatwgDecode st.fatal st.ignoreBom st.bomSeen src false).pending = []
        simp only [utf8WhatwgDecode, Bool.false_eq_true, if_false]
        split
        · rfl
        · split_ifs <;> rfl

/-- If byte order marks are ignored, it makes no difference whether one was seen. -/
theorem decodeBytes_ignoreBom (be fatal bomSeen other : Bool) (src : List UInt8) (stream : Bool) :
    (decodeBytes (utf16Encoding be) fatal true bomSeen src stream).out =
        (decodeBytes (utf16Encoding be) fatal true other src stream).out ∧
      (decodeBytes (utf16Encoding be) fatal true bomSeen src stream).pending =
        (decodeBytes (utf16Encoding be) fatal true other src stream).pending := by
  by_cases empty : src = []
  · subst empty
    exact ⟨rfl, rfl⟩
  · have kept (seen : Bool) : skipBom be true seen src = src := by
      rw [skipBom, Bool.not_true, Bool.and_false, if_neg Bool.false_ne_true]
    simp only [decodeBytes_utf16 empty, afterUtf16_out, afterUtf16_pending,
      utf16Decode_fields (absurd · empty), kept, and_self]

/-- If byte order marks are ignored, a remembered one changes no answer. -/
theorem answers_marked
    (isUtf16 : st.encoding = utf16Encoding be) (ignores : st.ignoreBom = true) (bomSeen : Bool)
    (calls : List (List UInt8 × Bool)) :
    answers (st.marked bomSeen) calls = answers st calls := by
  induction calls generalizing st bomSeen with
  | nil => rfl
  | cons call calls ih =>
    obtain ⟨encoding, fatal, ignoreBom, seen, pending⟩ := st
    obtain rfl : ignoreBom = true := ignores
    obtain rfl : encoding = utf16Encoding be := isUtf16
    obtain ⟨sameOut, samePending⟩ :=
      decodeBytes_ignoreBom be fatal bomSeen seen (pending ++ call.1) call.2
    have later := @ih (tdDecode ⟨utf16Encoding be, fatal, true, seen, pending⟩ call.1
      call.2).2 rfl rfl
    simp only [answers, TdState.marked, tdDecode, sameOut, samePending] at later ⊢
    rw [later]

/-- A new decoder takes the byte order mark away, one that has seen it does not. -/
theorem answers_bomBytes (be fatal bomSeen : Bool) :
    answers ((tdStateNew (utf16Encoding be) fatal false).marked bomSeen) [(bomBytes be, false)] =
      [.ok (if bomSeen then utf8Bytes 0xFEFF else [])] := by
  have mark : encodeChar 0xFEFF = utf8Bytes 0xFEFF :=
    encodeChar_eq _ (by decide) (by decide) (by decide)
  cases be <;> cases bomSeen <;>
    simp [mark, answers, tdDecode, tdStateNew, TdState.marked, utf16Encoding, decodeBytes, decodeAs,
      afterUtf16_out, utf16Decode, skipBom, startsWithBom, bomBytes, u16Read, utf16Loop, isHigh,
      isLow, resultOf, withOutput]

/-- After a last chunk a decoder is as good as new exactly if it ignores byte order marks, or
the chunk was not UTF-16 that is refused after its first unit. -/
theorem resets_iff (st : TdState) (input : List UInt8) :
    Resets st input ↔ st.ignoreBom = true ∨ ¬RefusedAfterMark st (st.pending ++ input) := by
  obtain ⟨noPending, marked⟩ := decodeBytes_closed st (st.pending ++ input)
  have after : (tdDecode st input false).2 = st.renewed.marked (decodeBytes st.encoding st.fatal
      st.ignoreBom st.bomSeen (st.pending ++ input) false).bomSeen := by
    rw [tdDecode, noPending]
    rfl
  rw [Resets, after, ← marked]
  cases seen : (decodeBytes st.encoding st.fatal st.ignoreBom st.bomSeen
      (st.pending ++ input) false).bomSeen with
  | false => exact iff_of_true (fun calls => rfl) (Or.inr Bool.false_ne_true)
  | true =>
    obtain ⟨be, isUtf16, -⟩ := marked.mp seen
    constructor
    · intro resets
      by_contra notIgnored
      have differs := resets [(bomBytes be, false)]
      rw [TdState.renewed, isUtf16, Bool.eq_false_iff.mpr (not_or.mp notIgnored).1,
        answers_bomBytes] at differs
      exact absurd (differs.trans (answers_bomBytes be st.fatal false)) (by decide)
    · intro ignores calls
      exact @answers_marked st.renewed be _ isUtf16 (ignores.resolve_right (not_not.mpr rfl))
        true calls

end

/-- A lone low surrogate is refused; the byte order mark of the next input is then kept. -/
theorem not_resets_loneLow : ¬@Resets exactUtf8 (tdStateNew .utf16le true false) [0x00, 0xDC] := by
  intro resets
  have refused : (@tdDecode exactUtf8 (tdStateNew .utf16le true false) [0x00, 0xDC] false).2 =
      (tdStateNew (utf16Encoding false) true false).marked true := by
    simp [tdDecode, tdStateNew, TdState.marked, utf16Encoding, decodeBytes, decodeAs, afterUtf16,
      utf16Decode, skipBom, startsWithBom, u16Read, utf16Loop, isHigh, isLow]
  have differs := resets [(bomBytes false, false)]
  rw [refused, @answers_bomBytes exactUtf8] at differs
  exact absurd (differs.trans (@answers_bomBytes exactUtf8 false true false)) (by decide)

end Reset

end AntRuntime.TextCodec
