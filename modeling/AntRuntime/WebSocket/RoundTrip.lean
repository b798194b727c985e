import AntRuntime.WebSocket.Frame
import Mathlib.Data.List.Induction
import Mathlib.Data.Nat.Bitwise

/-!
# Frames come through as they were sent

Every part of a frame is read back from any buffer that starts with it, or is reported as
incomplete if the buffer ends before. The parser on a buffer that agrees with an encoded
frame as far as it goes then does one of two things: it returns the frame, or it asks for
more and leaves the buffer alone.
-/

namespace AntRuntime.WebSocket

open List

section Buffers

variable {data whole : List UInt8}

theorem getD_of_isPrefixOf (agrees : data <+: whole) (inside : i < data.length) :
    data.getD i 0 = whole.getD i 0 := by
  obtain ⟨rest, rfl⟩ := agrees
  rw [getD_eq_getElem?_getD, getD_eq_getElem?_getD, getElem?_append_left inside]

/-- A piece that lies inside the buffer is the piece of the whole. -/
theorem take_drop_of_isPrefixOf
    (agrees : data <+: whole) {pos length : Nat} (inside : pos + length ≤ data.length) :
    (data.drop pos).take length = (whole.drop pos).take length := by
  obtain ⟨rest, rfl⟩ := agrees
  rw [drop_append_of_le_length (by omega), take_append_of_le_length]
  rw [length_drop]
  omega

end Buffers

section Masking

theorem wordByte_xor (left right : BitVec 64) (offset : Nat) :
    wordByte (left ^^^ right) offset = wordByte left offset ^^^ wordByte right offset := by
  apply UInt8.toBitVec_inj.mp
  simp [wordByte, BitVec.extractLsb'_xor]

/-- The lowest byte of a word that was put together. -/
theorem lowByte_append (high : BitVec width) (low : BitVec 8) :
    (high ++ low).extractLsb' (8 * 0) 8 = low := by
  rw [BitVec.extractLsb'_append_eq_of_add_le (by omega)]
  simp

/-- The other bytes of a word that was put together. -/
theorem highByte_append (high : BitVec width) (low : BitVec 8) (offset : Nat) :
    (high ++ low).extractLsb' (8 * (offset + 1)) 8 = high.extractLsb' (8 * offset) 8 := by
  rw [BitVec.extractLsb'_append_eq_of_le (by omega)]
  congr 1

/-- A stored word is the bytes that were loaded. -/
theorem storeWord_loadWord (b0 b1 b2 b3 b4 b5 b6 b7 : UInt8) :
    storeWord (loadWord b0 b1 b2 b3 b4 b5 b6 b7) = [b0, b1, b2, b3, b4, b5, b6, b7] := by
  simp only [storeWord, cons.injEq, and_true]
  refine ⟨?_, ?_, ?_, ?_, ?_, ?_, ?_, ?_⟩ <;> apply UInt8.toBitVec_inj.mp
  -- the highest byte is the only one with nothing above it
  on_goal 8 =>
    iterate 7 refine (highByte_append _ _ _).trans ?_
    exact BitVec.extractLsb'_eq_self
  all_goals
    repeat refine (highByte_append _ _ _).trans ?_
    exact lowByte_append _ _

/-- Unmasking by words is unmasking byte by byte. -/
theorem unmaskWords_eq_unmaskBytes
    (key : MaskingKey) (i : Nat) (data : List UInt8) (aligned : i % 8 = 0) :
    unmaskWords key i data = unmaskBytes key i data := by
  fun_induction unmaskWords key i data with
  | case1 i b0 b1 b2 b3 b4 b5 b6 b7 rest ih =>
    have index : ∀ k, (i + k) &&& 3 = k % 4 := by
      intro k
      rw [show (i + k) &&& 3 = (i + k) % 4 from Nat.and_two_pow_sub_one_eq_mod (i + k) 2]
      omega
    have first : i &&& 3 = 0 := index 0
    rw [ih (by omega)]
    have stored : storeWord (loadWord b0 b1 b2 b3 b4 b5 b6 b7 ^^^ key.word) =
        [b0 ^^^ key.byte0, b1 ^^^ key.byte1, b2 ^^^ key.byte2, b3 ^^^ key.byte3,
          b4 ^^^ key.byte0, b5 ^^^ key.byte1, b6 ^^^ key.byte2, b7 ^^^ key.byte3] := by
      have loaded := storeWord_loadWord b0 b1 b2 b3 b4 b5 b6 b7
      have keys := storeWord_loadWord key.byte0 key.byte1 key.byte2 key.byte3
        key.byte0 key.byte1 key.byte2 key.byte3
      simp only [storeWord, cons.injEq] at loaded keys
      simp only [storeWord, wordByte_xor, MaskingKey.word, loaded, keys]
    rw [stored]
    simp only [unmaskBytes, Nat.add_assoc, index, first, MaskingKey.byteAt, cons_append, nil_append]
  | case2 i rest short => rfl

/-- What the encoder masked is unmasked again. -/
theorem unmaskBytes_copyPayload (key : MaskingKey) (i : Nat) (data : List UInt8) :
    unmaskBytes key i (copyPayload (some key) i data) = data := by
  induction data generalizing i with
  | nil => rfl
  | cons byte rest ih =>
    have index : i &&& 3 = i % 4 := Nat.and_two_pow_sub_one_eq_mod i 2
    simp only [copyPayload, unmaskBytes, ih, index, UInt8.xor_assoc, UInt8.xor_self, UInt8.xor_zero]

theorem copyPayload_none (i : Nat) (data : List UInt8) : copyPayload none i data = data := by
  induction data generalizing i with
  | nil => rfl
  | cons byte rest ih => rw [copyPayload, ih]

@[simp]
theorem length_copyPayload (key : Option MaskingKey) (i : Nat) (data : List UInt8) :
    (copyPayload key i data).length = data.length := by
  induction data generalizing i with
  | nil => rfl
  | cons byte rest ih => simp [copyPayload, ih]

end Masking

section Headers

/-- The seven bits of the second byte that give the length or say how long it is. -/
def lengthField (payloadLen : Nat) : UInt8 :=
  if payloadLen < 126 then UInt8.ofNat payloadLen
  else if payloadLen ≤ 0xffff then 126
  else 127

/-- The bytes of a length that does not fit into seven bits. -/
def extendedLength (payloadLen : Nat) : List UInt8 :=
  if payloadLen < 126 then []
  else if payloadLen ≤ 0xffff then
    [UInt8.ofNat (payloadLen >>> 8), UInt8.ofNat (payloadLen &&& 0xff)]
  else Bytes.bigEndian 8 payloadLen

theorem encodeLength_eq (mask : Bool) (payloadLen : Nat) :
    encodeLength mask payloadLen =
      lengthByte mask (lengthField payloadLen) :: extendedLength payloadLen := by
  rw [encodeLength, lengthField, extendedLength]
  split_ifs <;> rfl

theorem length_extendedLength (payloadLen : Nat) :
    2 + (extendedLength payloadLen).length = headerLen payloadLen := by
  rw [extendedLength, headerLen]
  split_ifs <;> first | omega | simp

theorem lengthField_lt (payloadLen : Nat) : (lengthField payloadLen).toNat < 128 := by
  rw [lengthField]
  split_ifs with short
  · rw [UInt8.toNat_ofNat_of_lt' (by change payloadLen < 256; omega)]
    omega
  · decide
  · decide

/-- The first byte gives the opcode and the flags back. -/
theorem flagsByte_bits (opcode : Opcode) (rsv1 : Bool) :
    flagsByte opcode.code rsv1 &&& 0x0f = opcode.code ∧
      flagsByte opcode.code rsv1 &&& 0x30 = 0 ∧
      (flagsByte opcode.code rsv1 &&& 0x80 != 0) = true ∧
      (flagsByte opcode.code rsv1 &&& 0x40 != 0) = rsv1 := by
  obtain ⟨code, isCode⟩ : ∃ code : Fin 16, opcode.code = UInt8.ofNat code :=
    ⟨⟨_, opcode.isNibble⟩, UInt8.ofNat_toNat.symm⟩
  rw [isCode]
  clear isCode
  revert code rsv1
  decide

/-- The second byte gives the mask flag and its seven bits back. -/
theorem lengthByte_bits (mask : Bool) (payloadLen : Nat) :
    lengthByte mask (lengthField payloadLen) &&& 0x7f = lengthField payloadLen ∧
      (lengthByte mask (lengthField payloadLen) &&& 0x80 != 0) = mask := by
  obtain ⟨field, isField⟩ : ∃ field : Fin 128, lengthField payloadLen = UInt8.ofNat field :=
    ⟨⟨_, lengthField_lt payloadLen⟩, UInt8.ofNat_toNat.symm⟩
  rw [isField]
  clear isField
  revert field mask
  decide +kernel

/-- The first two bytes of a frame pass the checks of a parser in the matching role. -/
theorem headerAllowed_encoded
    (opcode : Opcode) (payloadLen : Nat)
    (control : opcode.IsControl → payloadLen ≤ 125 ∧ rsv1 = false)
    (role : requireMask = true → mask = true) (permitted : rsv1 = true → allowRsv1 = true) :
    headerAllowed (flagsByte opcode.code rsv1) (lengthByte mask (lengthField payloadLen))
      requireMask allowRsv1 = true := by
  obtain ⟨nibble, reserved, final, compressed⟩ := flagsByte_bits opcode rsv1
  obtain ⟨field, masked⟩ := lengthByte_bits mask payloadLen
  have finalBit : (flagsByte opcode.code rsv1 &&& 0x80 == 0) = false := by simpa [bne] using final
  have maskBit : (lengthByte mask (lengthField payloadLen) &&& 0x80 == 0) = !mask :=
    (Bool.not_not _).symm.trans (congrArg not masked)
  rw [headerAllowed]
  by_cases isControl : 0x8 ≤ opcode.code
  · obtain ⟨short, plain⟩ := control isControl
    have small : ¬ 125 < lengthField payloadLen := by
      rw [lengthField, if_pos (by omega), UInt8.lt_iff_toNat_lt,
        UInt8.toNat_ofNat_of_lt' (by change payloadLen < 256; omega)]
      change ¬ 125 < payloadLen
      omega
    cases requireMask <;> simp_all
  · cases requireMask <;> cases rsv1 <;> simp_all

/-- Reading eight bytes never loses the high ones. -/
theorem readU64BE_eq (bytes : List UInt8) (width : bytes.length ≤ 8) :
    readU64BE bytes = Bytes.ofBigEndian bytes ∧ Bytes.ofBigEndian bytes < 256 ^ bytes.length := by
  induction bytes using reverseRecOn with
  | nil => exact ⟨rfl, by decide⟩
  | append_singleton bytes byte ih =>
    rw [length_append, length_singleton] at width
    obtain ⟨same, bound⟩ := ih (by omega)
    have room : 256 ^ bytes.length ≤ 256 ^ 7 := Nat.pow_le_pow_right (by decide) (by omega)
    have byteBound : byte.toNat < 2 ^ 8 := byte.toNat_lt
    have unwrapped : (Bytes.ofBigEndian bytes <<< 8) % 2 ^ 64 =
        Bytes.ofBigEndian bytes <<< 8 := by
      apply Nat.mod_eq_of_lt
      omega
    refine ⟨?_, ?_⟩
    · have last : readU64BE (bytes ++ [byte]) =
          (readU64BE bytes <<< 8) % 2 ^ 64 ||| byte.toNat := by
        rw [readU64BE, foldl_append]
        rfl
      rw [last, same, unwrapped, ← Nat.shiftLeft_add_eq_or_of_lt byteBound,
        Nat.shiftLeft_eq, Bytes.ofBigEndian_append_singleton]
    · rw [Bytes.ofBigEndian_append_singleton, length_append, length_singleton]
      omega

/-- The length is read back from a buffer that holds all its bytes. -/
theorem readLength_of_prefix {data tail : List UInt8} {first second : UInt8} {payloadLen : Nat}
    (agrees : data <+: first :: second :: extendedLength payloadLen ++ tail)
    (started : 2 ≤ data.length) (bound : payloadLen < 2 ^ 63) :
    readLength data (lengthField payloadLen) =
      if data.length < headerLen payloadLen then .error .incomplete
      else .ok (payloadLen, headerLen payloadLen) := by
  rw [readLength]
  by_cases short : payloadLen < 126
  · -- the field is the length itself
    have value : (lengthField payloadLen).toNat = payloadLen := by
      rw [lengthField, if_pos short, UInt8.toNat_ofNat_of_lt' (by change payloadLen < 256; omega)]
    have notLong (field : UInt8) (large : 126 ≤ field.toNat) : lengthField payloadLen ≠ field := by
      rintro rfl
      omega
    have size : headerLen payloadLen = 2 := by rw [headerLen, if_neg (by omega), if_neg (by omega)]
    rw [if_neg (notLong 126 (by decide)), if_neg (notLong 127 (by decide)), size,
      if_neg (by omega), value]
  · by_cases middle : payloadLen ≤ 0xffff
    · -- two bytes
      have field : lengthField payloadLen = 126 := by rw [lengthField, if_neg short, if_pos middle]
      have size : headerLen payloadLen = 4 := by
        rw [headerLen, if_neg (by omega), if_pos (by omega)]
      rw [if_pos field, size]
      by_cases ends : data.length < 4
      · rw [if_pos ends, if_pos ends]
      · rw [extendedLength, if_neg short, if_pos middle] at agrees
        rw [if_neg ends, if_neg ends, getD_of_isPrefixOf agrees (by omega),
          getD_of_isPrefixOf agrees (by omega)]
        have high : (UInt8.ofNat (payloadLen >>> 8)).toNat = payloadLen / 256 := by
          rw [Nat.shiftRight_eq_div_pow, UInt8.toNat_ofNat_of_lt']
          change payloadLen / 256 < 256
          omega
        have low : (UInt8.ofNat (payloadLen &&& 0xff)).toNat < 2 ^ 8 := UInt8.toNat_lt _
        change Except.ok ((UInt8.ofNat (payloadLen >>> 8)).toNat <<< 8 |||
          (UInt8.ofNat (payloadLen &&& 0xff)).toNat, 4) = _
        rw [← Nat.shiftLeft_add_eq_or_of_lt low, Bytes.toNat_ofNat_and]
        congr 2
        omega
    · -- eight bytes
      have field : lengthField payloadLen = 127 := by rw [lengthField, if_neg short, if_neg middle]
      have size : headerLen payloadLen = 10 := by rw [headerLen, if_pos (by omega)]
      rw [field, if_neg (by decide), if_pos rfl, size]
      by_cases ends : data.length < 10
      · rw [if_pos ends, if_pos ends]
      · rw [extendedLength, if_neg short, if_neg middle] at agrees
        have bytes : (data.drop 2).take 8 = Bytes.bigEndian 8 payloadLen := by
          rw [take_drop_of_isPrefixOf agrees (by omega)]
          exact take_left' (Bytes.length_bigEndian 8 payloadLen)
        have value : readU64BE ((data.drop 2).take 8) = payloadLen := by
          rw [bytes, (readU64BE_eq _ (by rw [Bytes.length_bigEndian])).1,
            Bytes.ofBigEndian_bigEndian (by omega)]
        have positive : payloadLen &&& 2 ^ 63 = 0 := by
          rw [Nat.and_two_pow, Nat.testBit_lt_two_pow bound]
          rfl
        simp only [value, positive, ne_eq, not_true_eq_false, if_false]

end Headers

section Frames

/-- The bytes of the masking key, if there is one. -/
def keyBytes (key : Option MaskingKey) : List UInt8 :=
  (key.map MaskingKey.bytes).getD []

@[simp]
theorem Payload.length_content (payload : Payload) : payload.content.length = payload.length := by
  cases payload with
  | null length => exact length_replicate
  | bytes data => rfl

/-- The parts of an encoded frame. -/
theorem encodeFrame_cases
    {memory : Memory} {random : Option MaskingKey} {payload : Payload} {encoded : List UInt8}
    (encodes : encodeFrame memory random opcode payload mask rsv1 = some encoded) :
    payload.length < 2 ^ 63 ∧ ∃ key : Option MaskingKey, key.isSome = mask ∧
      encoded = flagsByte opcode rsv1 :: lengthByte mask (lengthField payload.length) ::
        extendedLength payload.length ++ keyBytes key ++ copyPayload key 0 payload.content := by
  obtain ⟨granted, encodes⟩ := Option.ite_none_right_eq_some.mp encodes
  have bound : payload.length < 2 ^ 63 := by
    have := memory.bounded _ granted
    omega
  refine ⟨bound, ?_⟩
  cases mask with
  | true =>
    obtain ⟨key, -, rfl⟩ := Option.map_eq_some_iff.mp encodes
    refine ⟨some key, rfl, ?_⟩
    rw [encodeLength_eq]
    rfl
  | false =>
    refine ⟨none, rfl, ?_⟩
    rw [← Option.some.inj encodes, encodeLength_eq, keyBytes, Option.map_none,
      Option.getD_none, append_nil]

/-- The masking key is read back from a buffer that holds all of it. -/
theorem readFrom_of_prefix
    {data front tail : List UInt8} {key : MaskingKey} (agrees : data <+: front ++ key.bytes ++ tail)
    (inside : front.length + 4 ≤ data.length) :
    MaskingKey.readFrom data front.length = key := by
  have byte : ∀ offset < 4, data.getD (front.length + offset) 0 = key.bytes.getD offset 0 := by
    intro offset small
    rw [getD_of_isPrefixOf agrees (by omega), append_assoc, getD_eq_getElem?_getD,
      getElem?_append_right (by omega), Nat.add_sub_cancel_left,
      getElem?_append_left small, getD_eq_getElem?_getD]
  have first : data.getD front.length 0 = key.bytes.getD 0 0 := byte 0 (by decide)
  rw [MaskingKey.readFrom, first, byte 1 (by decide), byte 2 (by decide), byte 3 (by decide)]
  rfl

/-- The payload is read back from a buffer that holds all of it. -/
theorem readPayload_of_prefix {data front tail content : List UInt8} {key : Option MaskingKey}
    (agrees : data <+: front ++ copyPayload key 0 content ++ tail)
    (inside : front.length + content.length ≤ data.length) :
    readPayload data front.length content.length key = content := by
  have piece : (data.drop front.length).take content.length = copyPayload key 0 content := by
    rw [take_drop_of_isPrefixOf agrees inside, append_assoc, drop_left]
    exact take_left' (length_copyPayload key 0 content)
  cases key with
  | none => rw [readPayload, piece, copyPayload_none]
  | some key =>
    rw [readPayload, piece, unmask, unmaskWords_eq_unmaskBytes key 0 _ rfl, unmaskBytes_copyPayload]

/-- What the parser has to return for a frame that was sent. -/
structure Carries
    (parsed : Parsed) (opcode : Opcode) (content : List UInt8) (mask rsv1 : Bool) (encodedLen : Nat)
    (rest : List UInt8) : Prop where
  result : parsed.result = .ok
  opcode : parsed.out.opcode = opcode.code
  fin : parsed.out.fin = true
  rsv1 : parsed.out.rsv1 = rsv1
  masked : parsed.out.masked = mask
  payload : parsed.out.payload = content
  payloadLen : parsed.out.payloadLen = content.length
  consumedLen : parsed.out.consumedLen = encodedLen
  remaining : parsed.buffer.drop encodedLen = rest

variable
    {memory : Memory}
    {data rest content : List UInt8}
    {inplace mask rsv1 : Bool}
    {key : Option MaskingKey}
    {opcode : Opcode}

/-- The end of the parser returns the payload. -/
theorem finishFrame_carries
    {front : List UInt8} (granted : inplace = true ∨ memory.grants (content.length + 1) = true) :
    Carries
      (finishFrame memory (front ++ copyPayload key 0 content ++ rest) inplace
        (flagsByte opcode.code rsv1) key content.length front.length)
      opcode content key.isSome rsv1 (front.length + content.length) rest := by
  obtain ⟨nibble, -, final, compressed⟩ := flagsByte_bits opcode rsv1
  have whole : (front ++ copyPayload key 0 content ++ rest).length =
      front.length + content.length + rest.length := by simp [Nat.add_assoc]
  have read := readPayload_of_prefix
    (prefix_refl (front ++ copyPayload key 0 content ++ rest)) (by omega)
  have after : (front ++ copyPayload key 0 content ++ rest).drop (front.length + content.length) =
      rest := drop_left' (by simp)
  have allowed : ¬ (!inplace && !memory.grants (content.length + 1)) = true := by
    rcases granted with placed | allocated
    · simp [placed]
    · simp [allocated]
  rw [finishFrame, if_neg (by omega), if_neg allowed, read]
  exact
    { result := rfl
      opcode := nibble
      fin := final
      rsv1 := compressed
      masked := rfl
      payload := rfl
      payloadLen := rfl
      consumedLen := rfl
      remaining := by
        cases inplace with
        | true =>
          rw [after, append_assoc front]
          exact drop_left' (by simp)
        | false => exact after }

/-- The parser on a frame with every part in place, and on a buffer that ends inside it. -/
theorem parseBody_of_parts
    (agrees : data <+: first :: lengthByte key.isSome (lengthField content.length) ::
      extendedLength content.length ++ keyBytes key ++ copyPayload key 0 content ++ rest)
    (started : 2 ≤ data.length) (bound : content.length < 2 ^ 63) :
    parseBody memory data inplace first (lengthByte key.isSome (lengthField content.length)) =
      if data.length < headerLen content.length + (keyBytes key).length then
        ⟨.incomplete, data, {}⟩
      else
        finishFrame memory data inplace first key content.length
          (headerLen content.length + (keyBytes key).length) := by
  obtain ⟨field, masked⟩ := lengthByte_bits key.isSome content.length
  have size := length_extendedLength content.length
  rw [parseBody, field, readLength_of_prefix (by simpa using agrees) started bound]
  by_cases short : data.length < headerLen content.length
  · rw [if_pos short, if_pos (Nat.lt_add_right _ short)]
  · rw [if_neg short]
    change (if 2 ^ 64 - 1 < content.length then _ else _) = _
    rw [if_neg (by omega), masked]
    cases key with
    | none => exact (if_neg short).symm
    | some key =>
      change (if data.length < headerLen content.length + 4 then _ else _) =
        if data.length < headerLen content.length + 4 then _ else _
      by_cases unkeyed : data.length < headerLen content.length + 4
      · rw [if_pos unkeyed, if_pos unkeyed]
      · have read : MaskingKey.readFrom data (headerLen content.length) = key := by
          have front : (first :: lengthByte true (lengthField content.length) ::
              extendedLength content.length).length = headerLen content.length := by
            rw [length_cons, length_cons]
            omega
          have inOrder : data <+: (first :: lengthByte true (lengthField content.length) ::
              extendedLength content.length) ++ key.bytes ++
              (copyPayload (some key) 0 content ++ rest) := by
            rw [← append_assoc]
            exact agrees
          rw [← front]
          exact readFrom_of_prefix inOrder (by omega)
        rw [if_neg unkeyed, if_neg unkeyed, read]
        rfl

/-- An encoded frame comes back from the parser of the matching role, whatever follows it,
and a proper prefix of it is reported as incomplete and left alone. -/
theorem parseFrame_encodeFrame
    (memory : Memory) (random : Option MaskingKey) (opcode : Opcode) (payload : Payload)
    (mask rsv1 requireMask allowRsv1 inplace : Bool) (encoded : List UInt8)
    (encodes : encodeFrame memory random opcode.code payload mask rsv1 = some encoded)
    (control : opcode.IsControl → payload.length ≤ 125 ∧ rsv1 = false)
    (role : requireMask = true → mask = true) (permitted : rsv1 = true → allowRsv1 = true) :
    (inplace = true ∨ memory.grants (payload.length + 1) = true →
      ∀ rest, Carries (parseFrame memory (encoded ++ rest) requireMask allowRsv1 inplace)
        opcode payload.content mask rsv1 encoded.length rest) ∧
      ∀ cut, cut <+: encoded → cut ≠ encoded →
        (parseFrame memory cut requireMask allowRsv1 inplace).result = .incomplete ∧
          (parseFrame memory cut requireMask allowRsv1 inplace).buffer = cut := by
  obtain ⟨bound, key, rfl, parts⟩ := encodeFrame_cases encodes
  rw [← Payload.length_content] at bound parts control ⊢
  have size := length_extendedLength payload.content.length
  have total : encoded.length =
      headerLen payload.content.length + (keyBytes key).length + payload.content.length := by
    rw [parts]
    simp only [length_append, length_cons, length_copyPayload]
    omega
  have allowed := headerAllowed_encoded opcode payload.content.length control role permitted
  -- both parts are about a buffer that agrees with the frame as far as it goes
  have parsed : ∀ data rest, data <+: encoded ++ rest → 2 ≤ data.length →
      parseFrame memory data requireMask allowRsv1 inplace =
        if data.length < headerLen payload.content.length + (keyBytes key).length then
          ⟨.incomplete, data, {}⟩
        else
          finishFrame memory data inplace (flagsByte opcode.code rsv1) key
            payload.content.length
            (headerLen payload.content.length + (keyBytes key).length) := by
    intro data rest agrees started
    rw [parts] at agrees
    rw [parseFrame, if_neg (by omega), getD_of_isPrefixOf agrees (by omega),
      getD_of_isPrefixOf agrees (by omega)]
    exact (if_pos allowed).trans (parseBody_of_parts agrees started bound)
  refine ⟨fun granted rest => ?_, fun cut agrees proper => ?_⟩
  · have enough : headerLen payload.content.length + (keyBytes key).length ≤
        (encoded ++ rest).length := by
      rw [length_append]
      omega
    rw [parsed _ rest (prefix_refl _) (by omega), if_neg (by omega), total, parts]
    have front : (flagsByte opcode.code rsv1 ::
        lengthByte key.isSome (lengthField payload.content.length) ::
          extendedLength payload.content.length ++ keyBytes key).length =
        headerLen payload.content.length + (keyBytes key).length := by
      simp only [length_append, length_cons]
      omega
    rw [← front]
    exact finishFrame_carries granted
  · have shorter : cut.length < encoded.length :=
      lt_of_le_of_ne agrees.length_le fun same => proper (agrees.eq_of_length same)
    by_cases started : 2 ≤ cut.length
    · rw [parsed cut [] (by rwa [append_nil]) started]
      split_ifs with short
      · exact ⟨rfl, rfl⟩
      · rw [finishFrame, if_pos (by omega)]
        exact ⟨rfl, rfl⟩
    · rw [parseFrame, if_pos (by omega)]
      exact ⟨rfl, rfl⟩

/-- A masked text frame for a server, with memory for every object that can exist. -/
theorem parseFrame_encodeFrame_greeting :
    Carries
      (parseFrame ⟨fun size => decide (size < 2 ^ 63), fun _ => of_decide_eq_true⟩
        ([0x81, 0x82, 1, 2, 3, 4, 73, 107] ++ [0x81]) true false true)
      Opcode.text [72, 105] true false 8 [0x81] :=
  (parseFrame_encodeFrame _ (some ⟨1, 2, 3, 4⟩) Opcode.text (.bytes [72, 105])
    true false true false true [0x81, 0x82, 1, 2, 3, 4, 73, 107] (by decide)
    (fun isControl => absurd isControl (by unfold Opcode.IsControl; decide))
    (fun _ => rfl) (fun compressed => absurd compressed (by decide))).1 (.inl rfl) [0x81]

end Frames

end AntRuntime.WebSocket
