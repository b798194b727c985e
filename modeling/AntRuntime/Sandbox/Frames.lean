import AntRuntime.Bytes.Words
import AntRuntime.Machine.Runs

/-!
# Frames from the sandbox daemon

The daemon's frames reach the host in vsock data packets, cut anywhere. The host gathers the
bytes in a buffer and hands over every frame that is whole. The limit on the buffer counts a
packet that ends one frame and begins the next as if all of it had to be kept, so the host may
refuse bytes that it would not have to hold.
-/

namespace AntRuntime.Sandbox

open List Bytes Machine

/-- ANT_SANDBOX_FRAME_MAX_SIZE. -/
def frameMaxSize : Nat := 16 * 1024 * 1024

/-- ANT_SANDBOX_FRAME_HEADER_SIZE. -/
def frameHeaderSize : Nat := 12

/-- ANT_SANDBOX_FRAME_MAGIC. -/
def frameMagic : List UInt8 := ofAscii "ANTF"

/-- ANT_SANDBOX_FRAME_VERSION. -/
def frameVersion : UInt8 := 1

/-- A frame's type and payload. -/
structure Frame where
  type : UInt8
  payload : List UInt8

/-- The codes that refuse a packet. -/
inductive Refusal
  | e2big
  | einval

/-- The header of a frame. -/
def Frame.header (frame : Frame) : List UInt8 :=
  frameMagic ++ [frameVersion, frame.type] ++ littleEndian 2 0 ++
    littleEndian 4 frame.payload.length

/-- The bytes of a frame. -/
def Frame.encode (frame : Frame) : List UInt8 :=
  frame.header ++ frame.payload

/-- The part of `ant_hvf_vsock_device_t` that takes in frames, with the frames handed over. -/
structure FrameStream where
  rxStream : List UInt8
  handled : List Frame
  protocolError : Bool

section

-- ant_hvf_vsock_handle_frame: what it answers to a frame, 0 being none
variable (handleFrame : Frame → Option Refusal)

/-- The checks of a header at the start of the bytes, and the frame if all of it is there. -/
def readFrame (bytes : List UInt8) : Except Refusal (Option Frame) :=
  if bytes.take 4 ≠ frameMagic then .error .einval
  else if bytes.getD 4 0 ≠ frameVersion then .error .einval
  else if ofLittleEndian ((bytes.drop 6).take 2) ≠ 0 then .error .einval
  else
    let payloadLen := ofLittleEndian ((bytes.drop 8).take 4)
    if payloadLen > frameMaxSize - frameHeaderSize then .error .e2big
    else if bytes.length < frameHeaderSize + payloadLen then .ok none
    else .ok (some ⟨bytes.getD 5 0, (bytes.drop frameHeaderSize).take payloadLen⟩)

/-- The loop over the buffer: how it ended, the frames handed over and the bytes left. -/
def handleFrames (bytes : List UInt8) : Option Refusal × List Frame × List UInt8 :=
  if bytes.length < frameHeaderSize then (none, [], bytes)
  else
    match readFrame bytes with
    | .error refusal => (some refusal, [], bytes)
    | .ok none => (none, [], bytes)
    | .ok (some frame) =>
      match handleFrame frame with
      | some refusal => (some refusal, [frame], bytes)
      | none =>
        let rest := handleFrames (bytes.drop (frameHeaderSize + frame.payload.length))
        (rest.1, frame :: rest.2.1, rest.2.2)
termination_by bytes.length
decreasing_by
  simp only [frameHeaderSize, length_drop] at *
  omega

/-- ant_hvf_vsock_consume_frames. -/
def consumeFrames (packet : List UInt8) (stream : FrameStream) : Option Refusal × FrameStream :=
  if packet.length = 0 then (none, stream)
  else if packet.length > frameMaxSize then (some .e2big, { stream with protocolError := true })
  else if stream.rxStream.length > frameMaxSize - packet.length then
    (some .e2big, { stream with protocolError := true })
  else
    let bytes := stream.rxStream ++ packet
    match handleFrames handleFrame bytes with
    | (some refusal, frames, _) => (some refusal, ⟨bytes, stream.handled ++ frames, true⟩)
    | (none, frames, left) => (none, ⟨left, stream.handled ++ frames, stream.protocolError⟩)

/-- The stream after the packets. -/
def consumeAll : List (List UInt8) → FrameStream → FrameStream :=
  run fun packet stream => (consumeFrames handleFrame packet stream).2

end

/-- The bytes of frames in a row. -/
def encodeFrames (frames : List Frame) : List UInt8 :=
  frames.flatMap Frame.encode

/-- A frame of legal size that the host accepts. -/
structure Frame.Valid (handleFrame : Frame → Option Refusal) (frame : Frame) : Prop where
  fits : frame.encode.length ≤ frameMaxSize
  accepted : handleFrame frame = none

/-- How many of the first `count` bytes come after the last frame that is whole in them. -/
def sinceBoundary : List Frame → Nat → Nat
  | [], count => count
  | frame :: frames, count =>
    if count < frame.encode.length then count
    else sinceBoundary frames (count - frame.encode.length)

/-- After `count` bytes, every packet ends within the maximum frame size of the last boundary
before it. -/
def EndInReach (frames : List Frame) : Nat → List (List UInt8) → Prop
  | _, [] => True
  | count, packet :: packets =>
    sinceBoundary frames count + packet.length ≤ frameMaxSize ∧
      EndInReach frames (count + packet.length) packets

theorem length_header (frame : Frame) : frame.header.length = frameHeaderSize :=
  rfl

theorem length_encode (frame : Frame) :
    frame.encode.length = frameHeaderSize + frame.payload.length := by
  rw [Frame.encode, length_append, length_header]

theorem encodeFrames_cons (frame : Frame) (frames : List Frame) :
    encodeFrames (frame :: frames) = frame.encode ++ encodeFrames frames :=
  flatMap_cons

theorem encodeFrames_append (first second : List Frame) :
    encodeFrames (first ++ second) = encodeFrames first ++ encodeFrames second :=
  flatMap_append

section

variable {handleFrame : Frame → Option Refusal} {frame : Frame} {frames left : List Frame}
variable {bytes later packet : List UInt8} {packets : List (List UInt8)}

/-- A header reads back as its frame, once the payload is there. -/
theorem readFrame_header (fits : frame.encode.length ≤ frameMaxSize) :
    readFrame (frame.header ++ bytes) = .ok (if bytes.length < frame.payload.length then none
      else some ⟨frame.type, bytes.take frame.payload.length⟩) := by
  rw [length_encode] at fits
  have size : ofLittleEndian (littleEndian 4 frame.payload.length) = frame.payload.length := by
    refine ofLittleEndian_littleEndian (lt_of_le_of_lt (Nat.le_of_add_left_le fits) ?_)
    decide
  have small : ¬ frame.payload.length > frameMaxSize - frameHeaderSize := by omega
  have whole (n : Nat) : (frame.header ++ bytes).length < frameHeaderSize + n ↔
      bytes.length < n := by
    rw [length_append]
    exact Nat.add_lt_add_iff_left
  have named : ((frame.header ++ bytes).drop 8).take 4 = littleEndian 4 frame.payload.length := rfl
  rw [readFrame]
  dsimp only
  rw [named, size, if_neg small]
  simp only [whole]
  exact (apply_ite Except.ok ..).symm

/-- The loop takes a whole frame off the front. -/
theorem handleFrames_encode (valid : frame.Valid handleFrame) :
    handleFrames handleFrame (frame.encode ++ bytes) =
      ((handleFrames handleFrame bytes).1, frame :: (handleFrames handleFrame bytes).2.1,
        (handleFrames handleFrame bytes).2.2) := by
  have long : ¬ (frame.encode ++ bytes).length < frameHeaderSize := by
    rw [length_append, length_encode]
    omega
  have whole : readFrame (frame.encode ++ bytes) = .ok (some frame) := by
    rw [Frame.encode, append_assoc, readFrame_header valid.fits, if_neg, take_left]
    rw [length_append]
    omega
  have rest : (frame.encode ++ bytes).drop (frameHeaderSize + frame.payload.length) = bytes := by
    rw [← length_encode, drop_left]
  rw [handleFrames, if_neg long, whole]
  dsimp only
  rw [valid.accepted]
  dsimp only
  rw [rest]

/-- The loop leaves a part of a frame for later. -/
theorem handleFrames_part (valid : frame.Valid handleFrame) (isPart : bytes <+: frame.encode)
    (short : bytes.length < frame.encode.length) :
    handleFrames handleFrame bytes = (none, [], bytes) := by
  rw [handleFrames]
  split_ifs with few
  · rfl
  · have hasHeader : frame.header <+: bytes :=
      prefix_of_prefix_length_le (prefix_append _ _) isPart (not_lt.mp few)
    obtain ⟨rest, rfl⟩ := hasHeader
    rw [readFrame_header valid.fits, if_pos]
    rw [length_encode, length_append] at short
    exact Nat.lt_of_add_lt_add_left short

/-- Bytes that begin valid frames are taken off up to the last boundary in them. -/
theorem handleFrames_spec (valid : ∀ frame ∈ frames, frame.Valid handleFrame)
    (begins : bytes <+: encodeFrames frames) :
    ∃ done left rest, frames = done ++ left ∧ bytes = encodeFrames done ++ rest ∧
      handleFrames handleFrame bytes = (none, done, rest) ∧
      ∀ next ∈ left.head?, rest.length < next.encode.length := by
  induction frames generalizing bytes with
  | nil =>
    obtain rfl := prefix_nil.mp begins
    refine ⟨[], [], [], rfl, rfl, ?_, by simp⟩
    rw [handleFrames, if_pos (by decide)]
  | cons frame frames ih =>
    rw [encodeFrames_cons] at begins
    rw [forall_mem_cons] at valid
    by_cases short : bytes.length < frame.encode.length
    · refine ⟨[], frame :: frames, bytes, rfl, rfl, ?_, by simpa using short⟩
      have isPart := prefix_of_prefix_length_le begins (prefix_append _ _) short.le
      exact handleFrames_part valid.1 isPart short
    · obtain ⟨after, rfl⟩ := prefix_of_prefix_length_le (prefix_append _ _) begins (not_lt.mp short)
      obtain ⟨done, left, rest, rfl, rfl, handled, waits⟩ :=
        ih valid.2 ((prefix_append_right_inj _).mp begins)
      refine ⟨frame :: done, left, rest, rfl, ?_, ?_, waits⟩
      · rw [encodeFrames_cons, append_assoc]
      · rw [handleFrames_encode valid.1, handled]

/-- The stream has handed over the whole frames in the first `count` bytes, and `later` are the
bytes to come. -/
structure Synced (frames : List Frame) (count : Nat) (later : List UInt8) (stream : FrameStream) :
    Prop where
  noError : stream.protocolError = false
  counted : count = (encodeFrames stream.handled).length + stream.rxStream.length
  waits : ∃ left, frames = stream.handled ++ left ∧ stream.rxStream ++ later = encodeFrames left ∧
    ∀ next ∈ left.head?, stream.rxStream.length < next.encode.length

variable {stream : FrameStream} {count : Nat}

theorem sinceBoundary_append (waits : ∀ next ∈ left.head?, count < next.encode.length) :
    sinceBoundary (frames ++ left) ((encodeFrames frames).length + count) = count := by
  induction frames with
  | nil =>
    rw [encodeFrames, flatMap_nil, length_nil, Nat.zero_add]
    cases left with
    | nil => rfl
    | cons next left => exact if_pos (waits next rfl)
  | cons frame frames ih =>
    rw [cons_append, encodeFrames_cons, length_append, sinceBoundary, if_neg (by omega),
      Nat.add_assoc, Nat.add_sub_cancel_left, ih]

/-- A stream in step takes a packet that ends in reach, and is in step again. -/
theorem Synced.consume (synced : Synced frames count (packet ++ later) stream)
    (valid : ∀ frame ∈ frames, frame.Valid handleFrame)
    (room : stream.rxStream.length + packet.length ≤ frameMaxSize) :
    Synced frames (count + packet.length) later (consumeFrames handleFrame packet stream).2 := by
  obtain ⟨noError, counted, left, rfl, toCome, waits⟩ := synced
  rw [consumeFrames]
  split_ifs with noBytes
  · obtain rfl := length_eq_zero_iff.mp noBytes
    exact ⟨noError, counted, left, rfl, toCome, waits⟩
  · omega
  · omega
  · rw [← append_assoc] at toCome
    obtain ⟨done, left, rest, rfl, whole, handled, waits⟩ :=
      handleFrames_spec (fun frame isLeft => valid frame (mem_append_right _ isLeft)) ⟨_, toCome⟩
    dsimp only
    rw [handled]
    rw [whole, encodeFrames_append, append_assoc, append_cancel_left_eq] at toCome
    refine ⟨noError, ?_, left, (append_assoc ..).symm, toCome, waits⟩
    have sizes := congrArg length whole
    rw [length_append, length_append] at sizes
    simp only [encodeFrames_append, length_append]
    omega

/-- A packet that ends out of reach is refused. -/
theorem Synced.refuse (synced : Synced frames count later stream)
    (valid : ∀ frame ∈ frames, frame.Valid handleFrame)
    (full : frameMaxSize < stream.rxStream.length + packet.length) :
    (consumeFrames handleFrame packet stream).2.protocolError = true := by
  rw [consumeFrames]
  split_ifs with noBytes
  · -- a part of a valid frame is small enough to keep
    obtain ⟨-, -, left, rfl, toCome, waits⟩ := synced
    cases left with
    | nil =>
      obtain ⟨nothing, -⟩ := append_eq_nil_iff.mp toCome
      rw [nothing, noBytes] at full
      exact absurd full (Nat.not_lt_zero _)
    | cons next left =>
      have short := waits next rfl
      have fits := (valid next (mem_append_right _ mem_cons_self)).fits
      omega
  · rfl
  · rfl
  · omega

/-- A protocol error stays. -/
theorem protocolError_consumeAll (failed : stream.protocolError = true) :
    (consumeAll handleFrame packets stream).protocolError = true := by
  induction packets generalizing stream with
  | nil => exact failed
  | cons packet packets ih =>
    refine @ih (consumeFrames handleFrame packet stream).2 ?_
    rw [consumeFrames]
    split_ifs
    · exact failed
    · rfl
    · rfl
    · dsimp only
      split
      · rfl
      · exact failed

/-- From a stream in step, the frames are handed over exactly if the packets end in reach. -/
theorem Synced.run_iff (synced : Synced frames count packets.flatten stream)
    (valid : ∀ frame ∈ frames, frame.Valid handleFrame) :
    ((consumeAll handleFrame packets stream).handled = frames ∧
      (consumeAll handleFrame packets stream).protocolError = false) ↔
        EndInReach frames count packets := by
  induction packets generalizing stream count with
  | nil =>
    obtain ⟨noError, -, left, rfl, toCome, waits⟩ := synced
    refine iff_of_true ⟨?_, noError⟩ trivial
    cases left with
    | nil => exact (append_nil _).symm
    | cons next left =>
      have short := waits next rfl
      have sizes := congrArg length toCome
      rw [encodeFrames_cons, flatten_nil, append_nil, length_append] at sizes
      omega
  | cons packet packets ih =>
    have since : sinceBoundary frames count = stream.rxStream.length := by
      obtain ⟨-, counted, left, rfl, -, waits⟩ := synced
      rw [counted, sinceBoundary_append waits]
    rw [EndInReach, since, consumeAll, run_cons, ← consumeAll]
    by_cases room : stream.rxStream.length + packet.length ≤ frameMaxSize
    · rw [and_iff_right room]
      exact ih (synced.consume valid room)
    · refine iff_of_false (fun handles => ?_) fun each => room each.1
      rw [protocolError_consumeAll (synced.refuse valid (not_le.mp room))] at handles
      exact Bool.noConfusion handles.2

end

/-- Valid frames, cut into packets. -/
structure Delivery (handleFrame : Frame → Option Refusal) where
  frames : List Frame
  packets : List (List UInt8)
  valid : ∀ frame ∈ frames, frame.Valid handleFrame
  cut : packets.flatten = encodeFrames frames

variable {handleFrame : Frame → Option Refusal} (delivery : Delivery handleFrame)

/-- The host hands over the frames, in order and without a protocol error. -/
def Delivery.Arrives : Prop :=
  (consumeAll handleFrame delivery.packets ⟨[], [], false⟩).handled = delivery.frames ∧
    (consumeAll handleFrame delivery.packets ⟨[], [], false⟩).protocolError = false

theorem Delivery.synced : Synced delivery.frames 0 delivery.packets.flatten ⟨[], [], false⟩ := by
  refine ⟨rfl, rfl, delivery.frames, rfl, delivery.cut, ?_⟩
  intro next _
  rw [length_encode]
  exact Nat.add_pos_left (by decide) _

/-- Frames arrive exactly if every packet ends within the maximum frame size of the last boundary
before it. -/
theorem arrives_iff : delivery.Arrives ↔ EndInReach delivery.frames 0 delivery.packets :=
  delivery.synced.run_iff delivery.valid

/-- A frame of the largest size and one without payload, cut after the first header: the second
packet is as long as a packet may be. -/
def cutAfterHeader (first : Frame) (full : first.encode.length = frameMaxSize) :
    Delivery fun _ => none where
  frames := [first, ⟨3, []⟩]
  packets := [first.header, first.payload ++ Frame.encode ⟨3, []⟩]
  valid := by
    rw [forall_mem_cons, forall_mem_singleton]
    exact ⟨⟨full.le, rfl⟩, ⟨by decide, rfl⟩⟩
  cut := by simp [encodeFrames, Frame.encode]

theorem not_endInReach_cutAfterHeader (first : Frame) (full : first.encode.length = frameMaxSize) :
    ¬ EndInReach (cutAfterHeader first full).frames 0 (cutAfterHeader first full).packets := by
  rintro ⟨-, inReach, -⟩
  have sizes : 0 < frameHeaderSize ∧ frameHeaderSize < frameMaxSize := by decide
  rw [length_header, cutAfterHeader, sinceBoundary, if_pos (full ▸ sizes.2),
    length_append, length_encode] at inReach
  rw [length_encode] at full
  omega

/-- Output that fills the largest frame. -/
def largestFrame : Frame := ⟨3, replicate (frameMaxSize - frameHeaderSize) 0⟩

theorem length_largestFrame : largestFrame.encode.length = frameMaxSize := by
  have payload : largestFrame.payload.length = frameMaxSize - frameHeaderSize := length_replicate
  rw [length_encode, payload]
  exact Nat.add_sub_of_le (by decide)

/-- The host refuses the second packet. -/
theorem not_arrives_largestFrame : ¬ (cutAfterHeader largestFrame length_largestFrame).Arrives := by
  rw [Delivery.Arrives, (Delivery.synced _).run_iff (Delivery.valid _)]
  exact not_endInReach_cutAfterHeader _ _

end AntRuntime.Sandbox
