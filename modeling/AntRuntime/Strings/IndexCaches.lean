import AntRuntime.Machine.Runs
import AntRuntime.Strings.Model

/-!
# Caches for indices in code units

A query for a place in a string scans the string from the left. The place the last query
stopped at is kept, and for longer strings a list of places 64 code units apart, so that
the next query may start further to the right.
-/

namespace AntRuntime.Strings

section Loops

/-- `utf16_scan_decode` without a code point. -/
def decodeUnits : Bytes → Nat × Nat
  | [] => (1, 1)
  | first :: _ => scanDecode first

variable (bytes : Bytes)

/-- The lengths `utf16_scan_decode` gives with a code point. -/
def decodePoint : Nat × Nat :=
  ((scanCodePoint bytes).1, (scanCodePoint bytes).2.1)

/-- A loop over the sequences of a string: at each one it stops with a result or goes on. -/
def scanUntil
    {Result : Type} (decode : Bytes → Nat × Nat) (stop : Cursor → Bytes → Option Result)
    (atEnd : Cursor → Result) (bytes : Bytes) :
    Nat → Cursor → Result
  | 0, cursor => atEnd cursor
  | fuel + 1, cursor =>
    match bytes.drop cursor.p with
    | [] => atEnd cursor
    | first :: rest =>
      match stop cursor (first :: rest) with
      | some result => result
      | none =>
        scanUntil decode stop atEnd bytes fuel
          (cursor.advance (decode (first :: rest)).1 (decode (first :: rest)).2)

/-- A turn of a loop around `utf16_scan_cursor_advance`: the loop ends when `goes` does not
hold or when a sequence goes past the bound. -/
def stopAdvancing (goes : Cursor → Bool) (boundEnd : Nat) (cursor : Cursor) (bytes : Bytes) :
    Option (Cursor × Bool) :=
  if goes cursor then
    if boundEnd < cursor.p + (decodeUnits bytes).1 then
      some (⟨boundEnd, cursor.utf16Pos + (decodeUnits bytes).2⟩, false)
    else none
  else some (cursor, true)

/-- A loop around `utf16_scan_cursor_advance`; the flag tells whether it ended between two
sequences. -/
def advanceWhile (goes : Cursor → Bool) (boundEnd : Nat) (bytes : Bytes) (cursor : Cursor) :
    Cursor × Bool :=
  scanUntil decodeUnits (stopAdvancing goes boundEnd) (fun last => (last, true)) bytes bytes.length
    cursor

/-- The conversion of a size to `int`. -/
def toInt (size : Nat) : Int :=
  (BitVec.ofNat 32 size).toInt

/-- The loop of `utf16_index_to_byte_offset` and what it returns: the offset and the bytes
of the sequence there. -/
def indexFrom (utf16Idx : Nat) (cursor : Cursor) : (Int × Option Nat) × Cursor :=
  let last := (advanceWhile (fun here => here.utf16Pos < utf16Idx) bytes.length bytes cursor).1
  if bytes.length ≤ last.p then
    (if last.utf16Pos = utf16Idx then (toInt bytes.length, some 0) else (-1, none), last)
  else ((toInt last.p, some (decodeUnits (bytes.drop last.p)).1), last)

/-- A turn of the loop of `utf16_index_to_byte_offset_floor`. -/
def stopFloor (utf16Idx : Nat) (cursor : Cursor) (bytes : Bytes) : Option Cursor :=
  if cursor.utf16Pos < utf16Idx then
    if utf16Idx < cursor.utf16Pos + (decodeUnits bytes).2 then some cursor else none
  else some cursor

/-- The loop of `utf16_index_to_byte_offset_floor`. -/
def floorFrom (utf16Idx : Nat) (cursor : Cursor) : Cursor :=
  scanUntil decodeUnits (stopFloor utf16Idx) id bytes bytes.length cursor

/-- The loops of `utf16_range_to_byte_range`. -/
def rangeFrom (utf16Start utf16End : Nat) (cursor : Cursor) : ByteRange × Cursor :=
  let first := seekStart bytes utf16Start bytes.length cursor
  let last := seekEnd bytes utf16End bytes.length first.2
  (⟨first.1, last.1, first.2.p, last.2.p⟩, last.2)

/-- The loop of `byte_offset_to_utf16`. -/
def unitsFrom (byteOff : Nat) (cursor : Cursor) : Cursor × Bool :=
  advanceWhile (fun here => here.p < byteOff) byteOff bytes cursor

/-- A turn of the loops of `utf16_code_unit_at` and `utf16_codepoint_at`, which differ in
what they return at the start of a sequence. -/
def stopAt (atStart : Nat → Nat → Nat) (utf16Idx : Nat) (cursor : Cursor) (bytes : Bytes) :
    Option (Nat × Cursor) :=
  let units := (scanCodePoint bytes).2.1
  let cp := (scanCodePoint bytes).2.2
  if cursor.utf16Pos = utf16Idx then some (atStart units cp, cursor)
  else if units = 2 ∧ cursor.utf16Pos + 1 = utf16Idx then
    some (0xDC00 + (cp - 0x10000) % 0x400, cursor)
  else none

/-- The loops of `utf16_code_unit_at` and `utf16_codepoint_at`. -/
def findFrom (atStart : Nat → Nat → Nat) (bytes : Bytes) (utf16Idx : Nat) (cursor : Cursor) :
    Nat × Cursor :=
  scanUntil decodePoint (stopAt atStart utf16Idx) (fun last => (0xFFFFFFFF, last)) bytes
    bytes.length
    cursor

/-- What `utf16_code_unit_at` returns at the start of a sequence. -/
def firstUnit (units cp : Nat) : Nat :=
  if units = 2 then 0xD800 + (cp - 0x10000) / 0x400 else cp

/-- What `utf16_codepoint_at` returns at the start of a sequence. -/
def wholePoint (_units cp : Nat) : Nat :=
  cp

end Loops

section Caches

/-- What a call finds: the sweep epoch of the string heap and whether `malloc` succeeds. -/
structure Call where
  epoch : UInt64
  allocates : Bool

/-- `utf16_scan_cache_t`. -/
structure ScanCache where
  epoch : UInt64
  str : Nat
  byteLen : Nat
  bytePos : Nat
  utf16Pos : Nat

/-- `utf16_index_point_t`. -/
structure IndexPoint where
  byteOff : UInt32
  utf16Pos : UInt32

/-- `utf16_index_entry_t`. -/
structure IndexEntry where
  str : Nat
  byteLen : Nat
  points : Option (List IndexPoint)

/-- `UTF16_INDEX_CHUNK`. -/
def indexChunk : Nat := 64

/-- `UTF16_INDEX_WAYS`. -/
abbrev indexWays : Nat := 8

/-- `UTF16_INDEX_MIN_BYTES`. -/
def indexMinBytes : Nat := 256

/-- `utf16_index_cache`. -/
structure IndexCache where
  epoch : UInt64
  victim : Fin indexWays
  mru : Fin indexWays
  entries : Fin indexWays → IndexEntry

/-- The two caches of a thread. -/
structure Caches where
  scan : ScanCache
  index : IndexCache

/-- A cache without a place. -/
def ScanCache.empty (epoch : UInt64) : ScanCache :=
  ⟨epoch, 0, 0, 0, 0⟩

/-- A cache without entries. -/
def IndexCache.empty (epoch : UInt64) : IndexCache :=
  ⟨epoch, 0, 0, fun _ => ⟨0, 0, none⟩⟩

/-- The caches of a new thread. -/
def Caches.initial : Caches :=
  ⟨.empty 0, .empty 0⟩

/-- `utf16_scan_cache_sync_epoch`. -/
def ScanCache.syncEpoch (cache : ScanCache) (epoch : UInt64) : ScanCache :=
  if cache.epoch = epoch then cache else .empty epoch

variable (cache : IndexCache)

/-- `utf16_index_sync_epoch`. -/
def IndexCache.syncEpoch (epoch : UInt64) : IndexCache :=
  if cache.epoch = epoch then cache else .empty epoch

/-- The cursor at the cached place of a string, or at its start if the place is not of this
string or already passed. -/
def ScanCache.resume (cache : ScanCache) (str byteLen : Nat) (passed : Bool) : Cursor :=
  if cache.str = str ∧ cache.bytePos ≤ byteLen then
    if passed then ⟨0, 0⟩ else ⟨cache.bytePos, cache.utf16Pos⟩
  else ⟨0, 0⟩

/-- `utf16_scan_cursor_resume_utf16`. -/
def ScanCache.resumeUtf16 (cache : ScanCache) (str byteLen targetUtf16 : Nat) : Cursor :=
  cache.resume str byteLen (targetUtf16 < cache.utf16Pos)

/-- `utf16_scan_cursor_resume_byte`. -/
def ScanCache.resumeByte (cache : ScanCache) (str byteLen targetByte : Nat) : Cursor :=
  cache.resume str byteLen (targetByte < cache.bytePos)

/-- `utf16_scan_cursor_init` on the caches. -/
def Caches.begin (caches : Caches) (call : Call) : Caches :=
  { caches with scan := caches.scan.syncEpoch call.epoch }

/-- `utf16_scan_cursor_store`. -/
def Caches.store (caches : Caches) (str byteLen : Nat) (cursor : Cursor) : Caches :=
  { caches with scan := ⟨caches.scan.epoch, str, byteLen, cursor.p, cursor.utf16Pos⟩ }

/-- The checkpoint at a cursor. -/
def IndexPoint.ofCursor (cursor : Cursor) : IndexPoint :=
  ⟨UInt32.ofNat cursor.p, UInt32.ofNat cursor.utf16Pos⟩

/-- The loop of `utf16_index_build`. -/
def buildPoints (bytes : Bytes) : Nat → Cursor → List IndexPoint → List IndexPoint
  | 0, _, points => points
  | fuel + 1, cursor, points =>
    match bytes.drop cursor.p with
    | [] => points
    | first :: rest =>
      buildPoints bytes fuel
        (cursor.advance (decodeUnits (first :: rest)).1 (decodeUnits (first :: rest)).2)
        (if points.length * indexChunk < cursor.utf16Pos + (decodeUnits (first :: rest)).2 then
          points ++ [.ofCursor cursor]
        else points)

/-- `utf16_index_build`. -/
def indexBuild (bytes : Bytes) : List IndexPoint :=
  buildPoints bytes bytes.length ⟨0, 0⟩ [⟨0, 0⟩]

/-- Whether an entry is for a string. -/
def IndexEntry.isFor (entry : IndexEntry) (str byteLen : Nat) : Bool :=
  entry.str == str && entry.byteLen == byteLen

/-- The entry for a string: the one used last is tried first. -/
def IndexCache.find (cache : IndexCache) (str byteLen : Nat) : Option (Fin indexWays) :=
  if (cache.entries cache.mru).isFor str byteLen then some cache.mru
  else
    (List.finRange indexWays).find? fun way =>
      way != cache.mru && (cache.entries way).isFor str byteLen

/-- An entry without checkpoints takes the place of the victim. -/
def IndexCache.evict (str byteLen : Nat) : IndexCache :=
  { cache with
    mru := cache.victim
    victim := cache.victim + 1
    entries := Function.update cache.entries cache.victim ⟨str, byteLen, none⟩ }

/-- The checkpoints of an entry are kept. -/
def IndexCache.keep (way : Fin indexWays) (points : List IndexPoint) : IndexCache :=
  { cache with
    entries := Function.update cache.entries way { cache.entries way with points := some points } }

/-- The checkpoints of an entry, built if it has none. -/
def IndexCache.pointsOf (call : Call) (bytes : Bytes) (way : Fin indexWays) :
    Option (List IndexPoint) × IndexCache :=
  match (cache.entries way).points with
  | some points => (some points, cache)
  | none =>
    if call.allocates then (some (indexBuild bytes), cache.keep way (indexBuild bytes))
    else (none, cache)

/-- `utf16_index_get`. -/
def IndexCache.get (call : Call) (str : Nat) (bytes : Bytes) :
    Option (List IndexPoint) × IndexCache :=
  if bytes.length < indexMinBytes ∨ 0xFFFFFFFF < bytes.length then (none, cache)
  else
    let synced := cache.syncEpoch call.epoch
    match synced.find str bytes.length with
    | none => (none, synced.evict str bytes.length)
    | some way => { synced with mru := way }.pointsOf call bytes way

/-- The loop of `utf16_index_seek`. -/
def seekPoint (points : List IndexPoint) (target : Nat) : Nat → Nat
  | 0 => 0
  | point + 1 =>
    if target < (points.getD (point + 1) ⟨0, 0⟩).utf16Pos.toNat then seekPoint points target point
    else point + 1

/-- `utf16_index_seek`. -/
def indexSeek (points : List IndexPoint) (cursor : Cursor) (target : Nat) : Cursor :=
  let checkpoint := points.getD (seekPoint points target
    (if points.length ≤ target / indexChunk then points.length - 1 else target / indexChunk)) ⟨0, 0⟩
  if checkpoint.utf16Pos.toNat ≤ cursor.utf16Pos then cursor
  else ⟨checkpoint.byteOff.toNat, checkpoint.utf16Pos.toNat⟩

/-- `utf16_scan_cursor_resume_indexed`. -/
def Caches.resumeIndexed (caches : Caches) (call : Call) (str : Nat) (bytes : Bytes)
    (target : Nat) :
    Cursor × Caches :=
  let cursor := caches.scan.resumeUtf16 str bytes.length target
  if target ≤ cursor.utf16Pos ∨ target - cursor.utf16Pos ≤ indexChunk then (cursor, caches)
  else
    let got := caches.index.get call str bytes
    (match got.1 with
      | none => cursor
      | some points => indexSeek points cursor target,
      { caches with index := got.2 })

end Caches

section Queries

/-- `utf16_index_to_byte_offset` on an ASCII string. -/
def asciiIndex (byteLen utf16Idx : Nat) : Int × Option Nat :=
  if byteLen < utf16Idx then (-1, none)
  else (toInt utf16Idx, some (if utf16Idx < byteLen then 1 else 0))

/-- `utf16_index_to_byte_offset`. -/
def utf16IndexToByteOffset (call : Call) (str : Nat) (bytes : Bytes) (utf16Idx : Nat)
    (caches : Caches) : (Int × Option Nat) × Caches :=
  if isAscii bytes then (asciiIndex bytes.length utf16Idx, caches)
  else
    let resumed := (caches.begin call).resumeIndexed call str bytes utf16Idx
    let result := indexFrom bytes utf16Idx resumed.1
    (result.1, resumed.2.store str bytes.length result.2)

/-- `utf16_index_to_byte_offset_floor`. -/
def utf16IndexToByteOffsetFloor (call : Call) (str : Nat) (bytes : Bytes) (utf16Idx : Nat)
    (caches : Caches) : Nat × Caches :=
  if isAscii bytes then (if bytes.length < utf16Idx then bytes.length else utf16Idx, caches)
  else
    let begun := caches.begin call
    let last := floorFrom bytes utf16Idx (begun.scan.resumeUtf16 str bytes.length utf16Idx)
    (last.p, begun.store str bytes.length last)

/-- `utf16_range_to_byte_range` on an ASCII string. -/
def asciiRange (byteLen utf16Start utf16End : Nat) : ByteRange :=
  ⟨0, 0, if utf16Start ≤ byteLen then utf16Start else byteLen,
    if utf16End ≤ byteLen then utf16End else byteLen⟩

/-- `utf16_range_to_byte_range`, with the caches. -/
def cachedRangeToByteRange (call : Call) (str : Nat) (bytes : Bytes) (utf16Start utf16End : Nat)
    (caches : Caches) : ByteRange × Caches :=
  if utf16End ≤ utf16Start then (⟨0, 0, 0, 0⟩, caches)
  else if isAscii bytes then (asciiRange bytes.length utf16Start utf16End, caches)
  else
    let resumed := (caches.begin call).resumeIndexed call str bytes utf16Start
    let result := rangeFrom bytes utf16Start utf16End resumed.1
    (result.1, resumed.2.store str bytes.length result.2)

/-- `byte_offset_to_utf16`. -/
def byteOffsetToUtf16 (call : Call) (str : Nat) (bytes : Bytes) (byteOff : Nat) (caches : Caches) :
    Nat × Caches :=
  if isAscii bytes then (byteOff, caches)
  else
    let begun := caches.begin call
    let result := unitsFrom bytes byteOff (begun.scan.resumeByte str byteOff byteOff)
    (result.1.utf16Pos, if result.2 then begun.store str byteOff result.1 else begun)

/-- `utf16_code_unit_at` and `utf16_codepoint_at`, which differ in what they return at the
start of a sequence. -/
def cachedFind (atStart : Nat → Nat → Nat) (call : Call) (str : Nat) (bytes : Bytes)
    (utf16Idx : Nat) (caches : Caches) : Nat × Caches :=
  if isAscii bytes then (bytes.getD utf16Idx 0xFFFFFFFF, caches)
  else
    let resumed := (caches.begin call).resumeIndexed call str bytes utf16Idx
    let result := findFrom atStart bytes utf16Idx resumed.1
    (result.1, resumed.2.store str bytes.length result.2)

/-- `utf16_code_unit_at`. -/
def utf16CodeUnitAt : Call → Nat → Bytes → Nat → Caches → Nat × Caches :=
  cachedFind firstUnit

/-- `utf16_codepoint_at`. -/
def utf16CodepointAt : Call → Nat → Bytes → Nat → Caches → Nat × Caches :=
  cachedFind wholePoint

/-- The strings in memory, by address. Their bytes encode code points, surrogates included. -/
structure Heap where
  bytes : Nat → Bytes
  encoded : ∀ str, ∃ text, Text.Valid text ∧ bytes str = Text.utf8 text

/-- An index query on a string of the heap. -/
inductive Query (heap : Heap) where
  | indexToByteOffset (str utf16Idx : Nat)
  | indexToByteOffsetFloor (str utf16Idx : Nat)
  | rangeToByteRange (str utf16Start utf16End : Nat)
  | byteOffsetToUtf16 (str byteOff : Nat) (inside : byteOff ≤ (heap.bytes str).length)
  | codeUnitAt (str utf16Idx : Nat)
  | codepointAt (str utf16Idx : Nat)

/-- The answer to a query. -/
inductive Answer where
  | offset (result : Int × Option Nat)
  | range (range : ByteRange)
  | size (size : Nat)
deriving DecidableEq

/-- A query with the caches. -/
def answer {heap : Heap} (asked : Call × Query heap) (caches : Caches) : Answer × Caches :=
  match asked.2 with
  | .indexToByteOffset str utf16Idx =>
    let result := utf16IndexToByteOffset asked.1 str (heap.bytes str) utf16Idx caches
    (.offset result.1, result.2)
  | .indexToByteOffsetFloor str utf16Idx =>
    let result := utf16IndexToByteOffsetFloor asked.1 str (heap.bytes str) utf16Idx caches
    (.size result.1, result.2)
  | .rangeToByteRange str utf16Start utf16End =>
    let result := cachedRangeToByteRange asked.1 str (heap.bytes str) utf16Start utf16End caches
    (.range result.1, result.2)
  | .byteOffsetToUtf16 str byteOff _ =>
    let result := byteOffsetToUtf16 asked.1 str (heap.bytes str) byteOff caches
    (.size result.1, result.2)
  | .codeUnitAt str utf16Idx =>
    let result := utf16CodeUnitAt asked.1 str (heap.bytes str) utf16Idx caches
    (.size result.1, result.2)
  | .codepointAt str utf16Idx =>
    let result := utf16CodepointAt asked.1 str (heap.bytes str) utf16Idx caches
    (.size result.1, result.2)

/-- The answer a scan from the start of the string gives. -/
def scannedAnswer {heap : Heap} : Query heap → Answer
  | .indexToByteOffset str utf16Idx => .offset (indexFrom (heap.bytes str) utf16Idx ⟨0, 0⟩).1
  | .indexToByteOffsetFloor str utf16Idx => .size (floorFrom (heap.bytes str) utf16Idx ⟨0, 0⟩).p
  | .rangeToByteRange str utf16Start utf16End =>
    if utf16End ≤ utf16Start then .range ⟨0, 0, 0, 0⟩
    else .range (rangeFrom (heap.bytes str) utf16Start utf16End ⟨0, 0⟩).1
  | .byteOffsetToUtf16 str byteOff _ => .size (unitsFrom (heap.bytes str) byteOff ⟨0, 0⟩).1.utf16Pos
  | .codeUnitAt str utf16Idx => .size (findFrom firstUnit (heap.bytes str) utf16Idx ⟨0, 0⟩).1
  | .codepointAt str utf16Idx => .size (findFrom wholePoint (heap.bytes str) utf16Idx ⟨0, 0⟩).1

end Queries

end AntRuntime.Strings
