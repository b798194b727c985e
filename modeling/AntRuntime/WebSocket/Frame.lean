import AntRuntime.Bytes.Words

/-!
# WebSocket frames

The encoder writes one final frame: two bytes of flags and length, the length in two or
eight bytes when it is large, the masking key, and the payload. The parser reads a frame
from the front of a buffer, where it may unmask the payload in place, or says that the
buffer does not hold the whole frame yet.
-/

namespace AntRuntime.WebSocket

/-- What `malloc` grants; no object is larger than `PTRDIFF_MAX`. -/
structure Memory where
  grants : Nat → Bool
  bounded : ∀ size, grants size = true → size < 2 ^ 63

/-- A four bit opcode. -/
structure Opcode where
  code : UInt8
  isNibble : code < 16
deriving DecidableEq

namespace Opcode

def text : Opcode := ⟨0x1, by decide⟩

/-- Control frames have the high bit of the opcode. -/
def IsControl (opcode : Opcode) : Prop := 0x8 ≤ opcode.code

end Opcode

section Masking

/-- The four bytes of a masking key. -/
structure MaskingKey where
  byte0 : UInt8 := 0
  byte1 : UInt8 := 0
  byte2 : UInt8 := 0
  byte3 : UInt8 := 0
deriving DecidableEq

namespace MaskingKey

def bytes (key : MaskingKey) : List UInt8 := [key.byte0, key.byte1, key.byte2, key.byte3]

/-- The byte of the key at an index below four. -/
def byteAt (key : MaskingKey) : Nat → UInt8
  | 0 => key.byte0
  | 1 => key.byte1
  | 2 => key.byte2
  | _ => key.byte3

/-- The key that starts at a position of a buffer. -/
def readFrom (data : List UInt8) (pos : Nat) : MaskingKey :=
  ⟨data.getD pos 0, data.getD (pos + 1) 0, data.getD (pos + 2) 0, data.getD (pos + 3) 0⟩

end MaskingKey

/-- `memcpy` of eight bytes into a `uint64_t`. -/
def loadWord (b0 b1 b2 b3 b4 b5 b6 b7 : UInt8) : BitVec 64 :=
  b7.toBitVec ++ b6.toBitVec ++ b5.toBitVec ++ b4.toBitVec ++ b3.toBitVec ++ b2.toBitVec ++
    b1.toBitVec ++ b0.toBitVec

/-- The byte of a word that `memcpy` stores at an offset. -/
def wordByte (word : BitVec 64) (offset : Nat) : UInt8 :=
  ⟨word.extractLsb' (8 * offset) 8⟩

/-- `memcpy` of a `uint64_t` into eight bytes. -/
def storeWord (word : BitVec 64) : List UInt8 :=
  [wordByte word 0, wordByte word 1, wordByte word 2, wordByte word 3,
    wordByte word 4, wordByte word 5, wordByte word 6, wordByte word 7]

variable (key : MaskingKey)

/-- The key twice, as one word. -/
def MaskingKey.word : BitVec 64 :=
  loadWord key.byte0 key.byte1 key.byte2 key.byte3 key.byte0 key.byte1 key.byte2 key.byte3

/-- The loop over the bytes that do not fill a word, from the index of the first one. -/
def unmaskBytes : Nat → List UInt8 → List UInt8
  | _, [] => []
  | i, byte :: rest => (byte ^^^ key.byteAt (i &&& 3)) :: unmaskBytes (i + 1) rest

/-- The loop over words, which leaves the last bytes to the loop over bytes. -/
def unmaskWords : Nat → List UInt8 → List UInt8
  | i, b0 :: b1 :: b2 :: b3 :: b4 :: b5 :: b6 :: b7 :: rest =>
    storeWord (loadWord b0 b1 b2 b3 b4 b5 b6 b7 ^^^ key.word) ++ unmaskWords (i + 8) rest
  | i, rest => unmaskBytes key i rest

/-- `ant_ws_unmask`. -/
def unmask (data : List UInt8) (key : MaskingKey) : List UInt8 :=
  unmaskWords key 0 data

end Masking

section Encoding

/-- The payload handed to the encoder; without a pointer every byte counts as zero. -/
inductive Payload
  | null (length : Nat)
  | bytes (data : List UInt8)

namespace Payload

def length : Payload → Nat
  | null length => length
  | bytes data => data.length

/-- The bytes that are sent. -/
def content : Payload → List UInt8
  | null length => List.replicate length 0
  | bytes data => data

end Payload

/-- The loop that copies the payload behind the header. -/
def copyPayload (key : Option MaskingKey) : Nat → List UInt8 → List UInt8
  | _, [] => []
  | i, byte :: rest =>
    (match key with
      | some key => byte ^^^ key.byteAt (i % 4)
      | none => byte) :: copyPayload key (i + 1) rest

/-- The size of the flags and the length. -/
def headerLen (payloadLen : Nat) : Nat :=
  if 0xffff < payloadLen then 10 else if 126 ≤ payloadLen then 4 else 2

/-- The first byte: a final frame. -/
def flagsByte (opcode : UInt8) (rsv1 : Bool) : UInt8 :=
  0x80 ||| (if rsv1 then 0x40 else 0) ||| opcode

/-- The second byte: whether the payload is masked and the seven bits of its length. -/
def lengthByte (mask : Bool) (field : UInt8) : UInt8 :=
  (if mask then 0x80 else 0) ||| field

/-- The second byte and the bytes of the longer lengths. -/
def encodeLength (mask : Bool) (payloadLen : Nat) : List UInt8 :=
  if payloadLen < 126 then [lengthByte mask (UInt8.ofNat payloadLen)]
  else if payloadLen ≤ 0xffff then
    [lengthByte mask 126, UInt8.ofNat (payloadLen >>> 8), UInt8.ofNat (payloadLen &&& 0xff)]
  else lengthByte mask 127 :: Bytes.bigEndian 8 payloadLen

/-- `ant_ws_encode_frame`, with what `uv_random` puts into the masking key. -/
def encodeFrame (memory : Memory) (random : Option MaskingKey) (opcode : UInt8) (payload : Payload)
    (mask rsv1 : Bool) : Option (List UInt8) :=
  if memory.grants (headerLen payload.length + (if mask then 4 else 0) + payload.length) then
    if mask then
      random.map fun key =>
        flagsByte opcode rsv1 :: encodeLength mask payload.length ++ key.bytes ++
          copyPayload (some key) 0 payload.content
    else
      some (flagsByte opcode rsv1 :: encodeLength mask payload.length ++
        copyPayload none 0 payload.content)
  else none

/-- A frame is made whenever there is memory for it and, if it is to be masked, a key. -/
theorem encodeFrame_isSome_iff (memory : Memory) (random : Option MaskingKey) (opcode : UInt8)
    (payload : Payload) (mask rsv1 : Bool) :
    (encodeFrame memory random opcode payload mask rsv1).isSome = true ↔
      memory.grants (headerLen payload.length + (if mask then 4 else 0) + payload.length) = true ∧
        (mask = true → random.isSome = true) := by
  unfold encodeFrame
  by_cases granted : memory.grants
      (headerLen payload.length + (if mask then 4 else 0) + payload.length) = true
  · rw [if_pos granted, and_iff_right granted]
    cases mask with
    | false => exact iff_of_true rfl nofun
    | true =>
      rw [if_pos rfl, Option.isSome_map]
      exact ⟨fun isKey _ => isKey, fun isKey => isKey rfl⟩
  · rw [if_neg granted]
    exact iff_of_false nofun fun both => granted both.1

end Encoding

section Parsing

inductive FrameResult
  | incomplete
  | ok
  | protocolError
deriving DecidableEq

/-- `ant_ws_frame_t`, with the bytes that the payload pointer leads to. -/
structure Frame where
  payload : List UInt8 := []
  payloadLen : Nat := 0
  consumedLen : Nat := 0
  opcode : UInt8 := 0
  mask : MaskingKey := {}
  fin : Bool := false
  rsv1 : Bool := false
  masked : Bool := false
  owned : Bool := false
deriving DecidableEq

/-- What the parser returns, the buffer after it, and the frame it filled in. -/
structure Parsed where
  result : FrameResult
  buffer : List UInt8
  out : Frame
deriving DecidableEq

/-- The loop of `ant_ws_read_u64_be`. -/
def readU64BE (bytes : List UInt8) : Nat :=
  bytes.foldl (fun value byte => (value <<< 8) % 2 ^ 64 ||| byte.toNat) 0

/-- The checks of the first two bytes. -/
def headerAllowed (first second : UInt8) (requireMask allowRsv1 : Bool) : Bool :=
  !(first &&& 0x30 != 0 || (first &&& 0x40 != 0 && !allowRsv1) ||
    (requireMask && second &&& 0x80 == 0) ||
    (decide (0x8 ≤ first &&& 0x0f) && (first &&& 0x80 == 0 || decide (125 < second &&& 0x7f))) ||
    (decide (0x8 ≤ first &&& 0x0f) && first &&& 0x40 != 0))

/-- The length of the payload and where the header goes on. -/
def readLength (data : List UInt8) (field : UInt8) : Except FrameResult (Nat × Nat) :=
  if field = 126 then
    if data.length < 2 + 2 then .error .incomplete
    else .ok (((data.getD 2 0).toNat <<< 8) ||| (data.getD 3 0).toNat, 4)
  else if field = 127 then
    if data.length < 2 + 8 then .error .incomplete
    else
      let payloadLen := readU64BE ((data.drop 2).take 8)
      if payloadLen &&& 2 ^ 63 ≠ 0 then .error .protocolError else .ok (payloadLen, 10)
  else .ok (field.toNat, 2)

/-- The payload at a position, unmasked if it was masked. -/
def readPayload (data : List UInt8) (pos payloadLen : Nat) (key : Option MaskingKey) : List UInt8 :=
  match key with
  | some key => unmask ((data.drop pos).take payloadLen) key
  | none => (data.drop pos).take payloadLen

/-- The end of the parser, from the position of the payload. -/
def finishFrame
    (memory : Memory) (data : List UInt8) (inplace : Bool) (first : UInt8) (key : Option MaskingKey)
    (payloadLen pos : Nat) : Parsed :=
  -- the lengths are below 2 ^ 63, so that the sum does not wrap
  if data.length < pos + payloadLen then ⟨.incomplete, data, { mask := key.getD {} }⟩
  else if !inplace && !memory.grants (payloadLen + 1) then
    ⟨.protocolError, data, { mask := key.getD {} }⟩
  else
    { result := .ok
      buffer :=
        if inplace then
          data.take pos ++ readPayload data pos payloadLen key ++ data.drop (pos + payloadLen)
        else data
      out :=
        { payload := readPayload data pos payloadLen key
          payloadLen := payloadLen
          consumedLen := pos + payloadLen
          opcode := first &&& 0x0f
          mask := key.getD {}
          fin := first &&& 0x80 != 0
          rsv1 := first &&& 0x40 != 0
          masked := key.isSome
          owned := !inplace } }

/-- The parser from the length on. -/
def parseBody (memory : Memory) (data : List UInt8) (inplace : Bool)
    (first second : UInt8) : Parsed :=
  match readLength data (second &&& 0x7f) with
  | .error result => ⟨result, data, {}⟩
  | .ok (payloadLen, pos) =>
    if 2 ^ 64 - 1 < payloadLen then ⟨.protocolError, data, {}⟩
    else if second &&& 0x80 != 0 then
      if data.length < pos + 4 then ⟨.incomplete, data, {}⟩
      else
        finishFrame memory data inplace first (some (MaskingKey.readFrom data pos))
          payloadLen (pos + 4)
    else finishFrame memory data inplace first none payloadLen pos

/-- `ant_ws_parse_frame`. -/
def parseFrame (memory : Memory) (data : List UInt8)
    (requireMask allowRsv1 inplace : Bool) : Parsed :=
  if data.length < 2 then ⟨.incomplete, data, {}⟩
  else if headerAllowed (data.getD 0 0) (data.getD 1 0) requireMask allowRsv1 then
    parseBody memory data inplace (data.getD 0 0) (data.getD 1 0)
  else ⟨.protocolError, data, {}⟩

end Parsing

end AntRuntime.WebSocket
