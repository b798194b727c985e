import AntRuntime.Strings.IndexCaches
import AntRuntime.Strings.Scanning
import Mathlib.Data.List.GetD

/-!
# The caches do not change an answer

Every place a cache holds is a place the scan from the start of its string comes to, and a
query starts at such a place only if the scan for it would not have stopped before. So the
loops give from there what they give from the start.
-/

namespace AntRuntime.Strings

open List Option
open Text

section Scans

variable {Result : Type} {decode : Bytes → Nat × Nat} {stop : Cursor → Bytes → Option Result}
  {atEnd : Cursor → Result} {bytes : Bytes} {cursor : Cursor} {text : List Nat}
variable {front back : List Nat}

/-- A decoder tells the bytes and the code units of each code point. -/
def Measures (decode : Bytes → Nat × Nat) : Prop :=
  ∀ c rest, c < 0x110000 → decode (utf8Bytes c ++ rest) = ((utf8Bytes c).length, width c)

/-- The decoder that only counts measures every code point. -/
theorem measures_decodeUnits : Measures decodeUnits := by
  intro c rest valid
  obtain ⟨first, tail, bytesEq, scanned⟩ := scanDecode_utf8Bytes valid
  rw [← scanned, bytesEq]
  rfl

/-- A sequence is decoded to its code point. -/
theorem scanCodePoint_append (valid : c < 0x110000) (rest : Bytes) :
    scanCodePoint (utf8Bytes c ++ rest) = ((utf8Bytes c).length, width c, c) := by
  by_cases supplementary : c < 0x10000
  · rw [width]
    unfold utf8Bytes
    split_ifs with one two
    · simp only [cons_append, scanCodePoint, if_pos one, length_singleton]
    · simp only [cons_append, scanCodePoint]
      rw [if_neg (by omega), if_pos (by omega)]
      simp only [Prod.mk.injEq, length_cons, length_nil, true_and]
      omega
    · simp only [cons_append, scanCodePoint]
      rw [if_neg (by omega), if_neg (by omega), if_pos (by omega)]
      simp only [Prod.mk.injEq, length_cons, length_nil, true_and]
      omega
  · rw [scanCodePoint_utf8Bytes supplementary valid, length_utf8Bytes_of_supplementary
      supplementary,
      width_eq_two_iff.mpr supplementary]

theorem measures_decodePoint : Measures decodePoint := by
  intro c rest valid
  rw [decodePoint, scanCodePoint_append valid]

/-- The cursor behind some text. -/
def Cursor.past (cursor : Cursor) (text : List Nat) : Cursor :=
  cursor.advance (utf8 text).length (utf16 text).length

theorem Cursor.past_cons (c : Nat) (text : List Nat) :
    cursor.past (c :: text) = (cursor.advance (utf8Bytes c).length (width c)).past text := by
  simp only [Cursor.past, Cursor.advance, utf8_cons, utf16_cons, length_append,
    length_utf16Units, Nat.add_assoc]

/-- A loop at the end of the bytes stops there, whatever its fuel. -/
theorem scanUntil_atEnd (ended : bytes.drop cursor.p = []) (fuel : Nat) :
    scanUntil decode stop atEnd bytes fuel cursor = atEnd cursor := by
  cases fuel with
  | zero => rfl
  | succ fuel => rw [scanUntil, ended]

/-- A turn of a loop at a code point. -/
theorem scanUntil_cons (measures : Measures decode) (here : cursor.At bytes (c :: text))
    (valid : c < 0x110000) (fuel : Nat) :
    scanUntil decode stop atEnd bytes (fuel + 1) cursor =
      (stop cursor (utf8Bytes c ++ utf8 text)).getD
        (scanUntil decode stop atEnd bytes fuel
          (cursor.advance (utf8Bytes c).length (width c))) := by
  obtain ⟨first, rest, seen, bytesEq, -, -⟩ := here.cons valid
  have measured := measures c (utf8 text) valid
  rw [← bytesEq] at measured ⊢
  rw [scanUntil, seen]
  simp only [measured]
  cases stop cursor (first :: rest) <;> rfl

/-- Fuel for every code point is enough. -/
theorem scanUntil_fuel
    (measures : Measures decode) (valid : Valid text) (here : cursor.At bytes text)
    (enough : text.length ≤ fuel) :
    scanUntil decode stop atEnd bytes fuel cursor =
      scanUntil decode stop atEnd bytes text.length cursor := by
  induction text generalizing fuel cursor with
  | nil => rw [scanUntil_atEnd here, scanUntil_atEnd here]
  | cons c text ih =>
    obtain ⟨-, -, -, -, -, next⟩ := here.cons valid.head
    obtain ⟨fuel, rfl⟩ := Nat.exists_eq_succ_of_ne_zero (Nat.ne_zero_of_lt enough)
    rw [scanUntil_cons measures here valid.head, length_cons,
      scanUntil_cons measures here valid.head, ih valid.tail next (Nat.le_of_succ_le_succ enough)]

/-- Behind the front of what is to come stands the back of it. -/
theorem Cursor.At.past (here : cursor.At bytes (front ++ back)) :
    (cursor.past front).At bytes back := by
  have split : bytes.drop cursor.p = utf8 front ++ utf8 back := by
    rw [← utf8_append]
    exact here
  change bytes.drop (cursor.p + (utf8 front).length) = utf8 back
  rw [← drop_drop, split, drop_left]

/-- A place between two sequences, with the code units before it. -/
def Boundary (bytes : Bytes) (cursor : Cursor) : Prop :=
  ∃ front back, Valid (front ++ back) ∧ bytes = utf8 (front ++ back) ∧
    cursor = (Cursor.mk 0 0).past front

section

variable (measures : Measures decode) (place : Cursor → Nat)
  (grows : ∀ cursor slen units, place cursor ≤ place (cursor.advance slen units))
  (passes : ∀ cursor c text, cursor.At bytes (c :: text) → c < 0x110000 →
    place (cursor.advance (utf8Bytes c).length (width c)) ≤ target →
    stop cursor (utf8Bytes c ++ utf8 text) = none)
include measures grows passes

/-- A loop that does not stop before some place gives what it gives from there. -/
theorem scanUntil_past (valid : Valid (front ++ back)) (here : cursor.At bytes (front ++ back))
    (reached : place (cursor.past front) ≤ target) :
    scanUntil decode stop atEnd bytes (front ++ back).length cursor =
      scanUntil decode stop atEnd bytes back.length (cursor.past front) := by
  induction front generalizing cursor with
  | nil => rfl
  | cons c front ih =>
    rw [cons_append] at valid here ⊢
    obtain ⟨-, -, -, -, -, next⟩ := here.cons valid.head
    rw [Cursor.past_cons] at reached ⊢
    have goesOn := passes cursor c (front ++ back) here valid.head
      (Nat.le_trans (grows _ _ _) reached)
    rw [length_cons, scanUntil_cons measures here valid.head, goesOn]
    exact ih valid.tail next reached

/-- A loop that would come to a place may start there. -/
theorem Boundary.scanUntil_eq (boundary : Boundary bytes cursor) (reached : place cursor ≤ target) :
    scanUntil decode stop atEnd bytes bytes.length cursor =
      scanUntil decode stop atEnd bytes bytes.length ⟨0, 0⟩ := by
  obtain ⟨front, back, valid, rfl, rfl⟩ := boundary
  have start := Cursor.at_start (front ++ back)
  have enough := length_le_length_utf8 (front ++ back)
  have backValid : Valid back := fun c isIn => valid c (mem_append_right front isIn)
  have backEnough : back.length ≤ (utf8 (front ++ back)).length := by
    rw [length_append] at enough
    omega
  rw [scanUntil_fuel measures valid start enough,
    scanUntil_fuel measures backValid start.past backEnough,
    scanUntil_past measures place grows passes valid start reached]

end

section

variable (boundary : Boundary bytes cursor)
include boundary

/-- At a boundary the string ends, or a code point starts and another boundary is behind it. -/
theorem Boundary.cases :
    bytes.drop cursor.p = [] ∨
      ∃ c text, c < 0x110000 ∧ cursor.At bytes (c :: text) ∧
        Boundary bytes (cursor.advance (utf8Bytes c).length (width c)) := by
  obtain ⟨front, back, valid, rfl, rfl⟩ := boundary
  have here := (Cursor.at_start (front ++ back)).past
  cases back with
  | nil => exact Or.inl here
  | cons c text =>
    have pointValid : c < 0x110000 := valid c (by simp)
    refine Or.inr ⟨c, text, pointValid, here, front ++ [c], text, ?_, ?_, ?_⟩
    · rw [append_assoc]
      exact valid
    · rw [append_assoc]
      rfl
    · simp only [Cursor.past, Cursor.advance, utf16_append, utf16_cons, length_append,
        length_utf16Units]
      simp [utf8, utf16]

/-- What holds of every result at a boundary holds of the result of the loop. -/
theorem Boundary.scanUntil_induct (property : Result → Prop) (measures : Measures decode)
    (ends : ∀ last, Boundary bytes last → property (atEnd last))
    (stops : ∀ here c text result, Boundary bytes here → c < 0x110000 →
      here.At bytes (c :: text) → Boundary bytes (here.advance (utf8Bytes c).length (width c)) →
      stop here (utf8Bytes c ++ utf8 text) = some result → property result)
    (fuel : Nat) :
    property (scanUntil decode stop atEnd bytes fuel cursor) := by
  induction fuel generalizing cursor with
  | zero => exact ends cursor boundary
  | succ fuel ih =>
    rcases boundary.cases with ended | ⟨c, text, valid, here, next⟩
    · rw [scanUntil_atEnd ended]
      exact ends cursor boundary
    · rw [scanUntil_cons measures here valid]
      cases decided : stop cursor (utf8Bytes c ++ utf8 text) with
      | none => exact ih next
      | some result => exact stops cursor c text result boundary valid here next decided

end

end Scans

section Loops

variable {bytes : Bytes} {cursor : Cursor}

/-- An advance never loses code units. -/
theorem utf16Pos_grows (cursor : Cursor) (slen units : Nat) :
    cursor.utf16Pos ≤ (cursor.advance slen units).utf16Pos :=
  Nat.le_add_right _ _

/-- A sequence that a cursor stands at lies inside the bytes. -/
theorem Cursor.At.end_le {text : List Nat} (here : cursor.At bytes (c :: text)) :
    cursor.p + (utf8Bytes c).length ≤ bytes.length := by
  have lengths := congrArg length (show bytes.drop cursor.p = utf8 (c :: text) from here)
  rw [length_drop, utf8_cons, length_append] at lengths
  have nonempty := length_utf8Bytes_pos c
  omega

section

variable (boundary : Boundary bytes cursor) (reached : cursor.utf16Pos ≤ target)
include boundary reached

/-- The loop of `utf16_index_to_byte_offset` may start at a boundary up to the index. -/
theorem Boundary.advanceWhile_utf16 :
    advanceWhile (fun here => here.utf16Pos < target) bytes.length bytes cursor =
      advanceWhile (fun here => here.utf16Pos < target) bytes.length bytes ⟨0, 0⟩ := by
  refine boundary.scanUntil_eq measures_decodeUnits Cursor.utf16Pos utf16Pos_grows ?_ reached
  intro here c text isAt valid within
  have unitsPos := width_pos c
  have inside := isAt.end_le
  simp only [Cursor.advance] at within
  rw [stopAdvancing, measures_decodeUnits c _ valid, if_pos (decide_eq_true (by omega)),
    if_neg (by omega)]

/-- The floor of a place may be looked for from any boundary that is not past it. -/
theorem Boundary.floorFrom_eq : floorFrom bytes target cursor = floorFrom bytes target ⟨0, 0⟩ := by
  refine boundary.scanUntil_eq measures_decodeUnits Cursor.utf16Pos utf16Pos_grows ?_ reached
  intro here c text isAt valid within
  have unitsPos := width_pos c
  simp only [Cursor.advance] at within
  rw [stopFloor, measures_decodeUnits c _ valid, if_pos (by omega), if_neg (by omega)]

end

/-- The code units up to a byte may be counted from any boundary that is not past it. -/
theorem Boundary.unitsFrom_eq (boundary : Boundary bytes cursor) (reached : cursor.p ≤ target) :
    unitsFrom bytes target cursor = unitsFrom bytes target ⟨0, 0⟩ := by
  refine boundary.scanUntil_eq measures_decodeUnits Cursor.p (fun _ _ _ => Nat.le_add_right _ _)
    ?_ reached
  intro here c text isAt valid within
  have nonempty := length_utf8Bytes_pos c
  simp only [Cursor.advance] at within
  rw [stopAdvancing, measures_decodeUnits c _ valid, if_pos (decide_eq_true (by omega)),
    if_neg (by omega)]

/-- A code unit may be looked for from any boundary that is not past it. -/
theorem Boundary.findFrom_eq (atStart : Nat → Nat → Nat) (boundary : Boundary bytes cursor)
    (reached : cursor.utf16Pos ≤ target) :
    findFrom atStart bytes target cursor = findFrom atStart bytes target ⟨0, 0⟩ := by
  refine boundary.scanUntil_eq measures_decodePoint Cursor.utf16Pos utf16Pos_grows ?_ reached
  intro here c text isAt valid within
  have unitsPos := width_pos c
  simp only [Cursor.advance] at within
  rw [stopAt, scanCodePoint_append valid]
  simp only
  rw [if_neg (by omega), if_neg (by omega)]

/-- A turn of the loops of `utf16_range_to_byte_range`, which differ in what they return
between two surrogates. -/
def stopSeek (split : Cursor → Bytes → Nat × Cursor) (target : Nat) (cursor : Cursor)
    (bytes : Bytes) : Option (Nat × Cursor) :=
  if cursor.utf16Pos < target then
    if (decodeUnits bytes).2 = 2 ∧ cursor.utf16Pos + 1 = target then some (split cursor bytes)
    else none
  else some (0, cursor)

/-- What the first loop returns between two surrogates. -/
def splitStart (cursor : Cursor) (bytes : Bytes) : Nat × Cursor :=
  (0xDC00 + ((scanCodePoint bytes).2.2 - 0x10000) % 0x400,
    cursor.advance (scanCodePoint bytes).1 (scanCodePoint bytes).2.1)

/-- What the second loop returns between two surrogates. -/
def splitEnd (cursor : Cursor) (bytes : Bytes) : Nat × Cursor :=
  (0xD800 + ((scanCodePoint bytes).2.2 - 0x10000) / 0x400, cursor)

/-- The loops of `utf16_range_to_byte_range`. -/
def seek (split : Cursor → Bytes → Nat × Cursor) (bytes : Bytes) (target fuel : Nat) :
    Cursor → Nat × Cursor :=
  scanUntil decodeUnits (stopSeek split target) (fun last => (0, last)) bytes fuel

/-- What the loop of a seek does at a byte, as its two tests in turn. -/
theorem stopSeek_cons (split : Cursor → Bytes → Nat × Cursor) (first : Nat) (rest : Bytes) :
    stopSeek split target cursor (first :: rest) =
      if cursor.utf16Pos < target then
        if (scanDecode first).2 = 2 ∧ cursor.utf16Pos + 1 = target then
          some (split cursor (first :: rest))
        else none
      else some (0, cursor) :=
  rfl

/-- Both loops of the range search are one loop, with a different answer inside a pair. -/
theorem seekStart_seekEnd_eq (fuel : Nat) :
    seekStart bytes target fuel cursor = seek splitStart bytes target fuel cursor ∧
      seekEnd bytes target fuel cursor = seek splitEnd bytes target fuel cursor := by
  induction fuel generalizing cursor with
  | zero => exact ⟨rfl, rfl⟩
  | succ fuel ih =>
    rw [seekStart, seekEnd, seek, seek, scanUntil, scanUntil]
    cases bytes.drop cursor.p with
    | nil => exact ⟨rfl, rfl⟩
    | cons first rest =>
      simp only [stopSeek_cons]
      split_ifs
      · exact ⟨rfl, rfl⟩
      · exact ih
      · exact ⟨rfl, rfl⟩

/-- An end of a range may be looked for from any boundary that is not past it. -/
theorem Boundary.seek_eq (split : Cursor → Bytes → Nat × Cursor) (boundary : Boundary bytes cursor)
    (reached : cursor.utf16Pos ≤ target) :
    seek split bytes target bytes.length cursor = seek split bytes target bytes.length ⟨0, 0⟩ := by
  refine boundary.scanUntil_eq measures_decodeUnits Cursor.utf16Pos utf16Pos_grows ?_ reached
  intro here c text isAt valid within
  have unitsPos := width_pos c
  simp only [Cursor.advance] at within
  rw [stopSeek, measures_decodeUnits c _ valid, if_pos (by omega), if_neg (by omega)]

section

variable (boundary : Boundary bytes cursor)
include boundary

/-- A loop that ends between two sequences ends at a boundary. -/
theorem Boundary.advanceWhile (goes : Cursor → Bool) (boundEnd : Nat)
    (between : (advanceWhile goes boundEnd bytes cursor).2 = true) :
    Boundary bytes (Strings.advanceWhile goes boundEnd bytes cursor).1 := by
  refine boundary.scanUntil_induct (fun (result : Cursor × Bool) => result.2 = true → Boundary
    bytes result.1)
    measures_decodeUnits (fun last isLast _ => isLast) ?_ _ between
  intro here c text result isHere valid isAt next stops isBetween
  unfold stopAdvancing at stops
  split_ifs at stops
  · cases stops
    cases isBetween
  · cases stops
    exact isHere

/-- No sequence goes past the end of the string. -/
theorem Boundary.advanceWhile_between (goes : Cursor → Bool) :
    (Strings.advanceWhile goes bytes.length bytes cursor).2 = true := by
  refine boundary.scanUntil_induct (fun (result : Cursor × Bool) => result.2 = true)
    measures_decodeUnits
    (fun _ _ => rfl) ?_ _
  intro here c text result isHere valid isAt next stops
  unfold stopAdvancing at stops
  rw [measures_decodeUnits c _ valid, if_neg (Nat.not_lt.mpr isAt.end_le)] at stops
  split_ifs at stops
  cases stops
  rfl

/-- The search for an index leaves the cursor at a boundary. -/
theorem Boundary.indexFrom : Boundary bytes (Strings.indexFrom bytes target cursor).2 := by
  have last := boundary.advanceWhile (fun here => here.utf16Pos < target) bytes.length
    (boundary.advanceWhile_between _)
  unfold Strings.indexFrom
  simp only
  split_ifs <;> exact last

/-- The floor of an index is a boundary. -/
theorem Boundary.floorFrom : Boundary bytes (Strings.floorFrom bytes target cursor) := by
  refine boundary.scanUntil_induct (Boundary bytes) measures_decodeUnits
    (fun _ isLast => isLast) ?_ _
  intro here c text result isHere valid isAt next stops
  unfold stopFloor at stops
  split_ifs at stops <;> cases stops <;> exact isHere

/-- The search for a code unit leaves the cursor at a boundary. -/
theorem Boundary.findFrom (atStart : Nat → Nat → Nat) :
    Boundary bytes (Strings.findFrom atStart bytes target cursor).2 := by
  refine boundary.scanUntil_induct (fun (result : Nat × Cursor) => Boundary bytes result.2)
    measures_decodePoint
    (fun _ isLast => isLast) ?_ _
  intro here c text result isHere valid isAt next stops
  unfold stopAt at stops
  simp only at stops
  split_ifs at stops <;> rw [← some.inj stops] <;> exact isHere

/-- The loops end at a boundary if they do so between two surrogates. -/
theorem Boundary.seek {split : Cursor → Bytes → Nat × Cursor}
    (splits : ∀ here c text, Boundary bytes here → c < 0x110000 →
      Boundary bytes (here.advance (utf8Bytes c).length (width c)) →
      Boundary bytes (split here (utf8Bytes c ++ utf8 text)).2)
    (fuel : Nat) :
    Boundary bytes (Strings.seek split bytes target fuel cursor).2 := by
  refine boundary.scanUntil_induct (fun (result : Nat × Cursor) => Boundary bytes result.2)
    measures_decodeUnits
    (fun _ isLast => isLast) ?_ _
  intro here c text result isHere valid isAt next stops
  unfold stopSeek at stops
  split_ifs at stops <;> rw [← some.inj stops]
  · exact splits here c text isHere valid next
  · exact isHere

/-- The search for a range leaves the cursor at a boundary. -/
theorem Boundary.rangeFrom (utf16End : Nat) :
    Boundary bytes (Strings.rangeFrom bytes target utf16End cursor).2 := by
  simp only [Strings.rangeFrom, seekStart_seekEnd_eq]
  refine (boundary.seek (fun here c text isHere valid next => ?_) _).seek
    (fun here c text isHere _ _ => isHere) _
  rw [splitStart, scanCodePoint_append valid]
  exact next

end

end Loops

section Checkpoints

variable {heap : Heap} {bytes : Bytes} {cursor : Cursor} {points : List IndexPoint}

theorem width_le_length_utf8Bytes (c : Nat) : width c ≤ (utf8Bytes c).length := by
  unfold width utf8Bytes
  split_ifs <;> first | omega | simp

/-- A text takes at least as many bytes as code units. -/
theorem length_utf16_le (text : List Nat) : (utf16 text).length ≤ (utf8 text).length := by
  induction text with
  | nil => rfl
  | cons c text ih =>
    have here := width_le_length_utf8Bytes c
    rw [utf16_cons, utf8_cons, length_append, length_append, length_utf16Units]
    omega

/-- A boundary lies inside the string, at a byte no earlier than its code unit. -/
theorem Boundary.bounds (boundary : Boundary bytes cursor) :
    cursor.utf16Pos ≤ cursor.p ∧ cursor.p ≤ bytes.length := by
  obtain ⟨front, back, -, rfl, rfl⟩ := boundary
  have units := length_utf16_le front
  simp only [Cursor.past, Cursor.advance, utf8_append, length_append]
  omega

/-- The start of a string is a boundary. -/
theorem Heap.boundary_start (heap : Heap) (str : Nat) : Boundary (heap.bytes str) ⟨0, 0⟩ := by
  obtain ⟨text, valid, encoded⟩ := heap.encoded str
  exact ⟨[], text, valid, encoded, rfl⟩

/-- The cursor a checkpoint stands for. -/
def IndexPoint.toCursor (point : IndexPoint) : Cursor :=
  ⟨point.byteOff.toNat, point.utf16Pos.toNat⟩

/-- Checkpoints of a string: its start comes first. -/
structure Checkpoints (bytes : Bytes) (points : List IndexPoint) : Prop where
  first : points.getD 0 ⟨0, 0⟩ = ⟨0, 0⟩
  boundary : ∀ point ∈ points, Boundary bytes point.toCursor

/-- The offsets of a string the index accepts fit the fields of a checkpoint. -/
theorem IndexPoint.toCursor_ofCursor
    (boundary : Boundary bytes cursor) (short : bytes.length ≤ 0xFFFFFFFF) :
    (IndexPoint.ofCursor cursor).toCursor = cursor := by
  obtain ⟨units, inside⟩ := boundary.bounds
  have fits (size : Nat) (small : size ≤ bytes.length) : (UInt32.ofNat size).toNat = size := by
    apply UInt32.toNat_ofNat_of_lt'
    change size < 4294967296
    omega
  simp only [IndexPoint.toCursor, IndexPoint.ofCursor]
  rw [fits _ inside, fits _ (Nat.le_trans units inside)]

/-- Every checkpoint that is built is a boundary. -/
theorem checkpoints_buildPoints
    (short : bytes.length ≤ 0xFFFFFFFF) (fuel : Nat) (boundary : Boundary bytes cursor)
    (nonempty : points ≠ []) (checkpoints : Checkpoints bytes points) :
    Checkpoints bytes (buildPoints bytes fuel cursor points) := by
  induction fuel generalizing cursor points with
  | zero => exact checkpoints
  | succ fuel ih =>
    rcases boundary.cases with ended | ⟨c, text, valid, here, next⟩
    · rw [buildPoints, ended]
      exact checkpoints
    · obtain ⟨first, rest, seen, bytesEq, -, -⟩ := here.cons valid
      rw [buildPoints, seen]
      simp only [bytesEq, measures_decodeUnits c _ valid]
      split_ifs
      · refine ih next (append_ne_nil_of_left_ne_nil nonempty _) ⟨?_, ?_⟩
        · rw [getD_append _ _ _ _ (length_pos_of_ne_nil nonempty)]
          exact checkpoints.first
        · intro point isIn
          rcases mem_append.mp isIn with isOld | isNew
          · exact checkpoints.boundary point isOld
          · rw [mem_singleton.mp isNew, IndexPoint.toCursor_ofCursor boundary short]
            exact boundary
      · exact ih next nonempty checkpoints

/-- The index built for a string that it accepts consists of boundaries. -/
theorem checkpoints_indexBuild (start : Boundary bytes ⟨0, 0⟩) (short : bytes.length ≤ 0xFFFFFFFF) :
    Checkpoints bytes (indexBuild bytes) := by
  refine checkpoints_buildPoints short _ start (cons_ne_nil _ _) ⟨rfl, ?_⟩
  intro point isIn
  rw [mem_singleton.mp isIn]
  exact start

/-- The checkpoint found is not behind the target. -/
theorem Checkpoints.seekPoint_le (checkpoints : Checkpoints bytes points) (point : Nat) :
    (points.getD (seekPoint points target point) ⟨0, 0⟩).utf16Pos.toNat ≤ target := by
  induction point with
  | zero =>
    rw [seekPoint, checkpoints.first]
    exact Nat.zero_le target
  | succ point ih =>
    rw [seekPoint]
    split_ifs with behind
    · exact ih
    · exact Nat.le_of_not_lt behind

/-- A point read from the index is a boundary, a point outside of it being the start. -/
theorem Checkpoints.getD_boundary
    (checkpoints : Checkpoints bytes points) (start : Boundary bytes ⟨0, 0⟩) (point : Nat) :
    Boundary bytes (points.getD point ⟨0, 0⟩).toCursor := by
  rw [getD_eq_getElem?_getD]
  cases found : points[point]? with
  | none => exact start
  | some checkpoint => exact checkpoints.boundary checkpoint (mem_of_getElem? found)

/-- A cursor a loop for the target may start at. -/
def StartsFor (bytes : Bytes) (target : Nat) (cursor : Cursor) : Prop :=
  Boundary bytes cursor ∧ cursor.utf16Pos ≤ target

/-- The cursor that the index proposes is one that the query may start at. -/
theorem Checkpoints.indexSeek
    (checkpoints : Checkpoints bytes points) (start : Boundary bytes ⟨0, 0⟩)
    (starts : StartsFor bytes target cursor) :
    StartsFor bytes target (Strings.indexSeek points cursor target) := by
  unfold Strings.indexSeek
  simp only
  split_ifs
  · exact starts
  · exact ⟨checkpoints.getD_boundary start _, checkpoints.seekPoint_le _⟩
  · exact starts
  · exact ⟨checkpoints.getD_boundary start _, checkpoints.seekPoint_le _⟩

end Checkpoints

section Soundness

variable {heap : Heap} {caches : Caches} {call : Call} {str target : Nat} {index : IndexCache}
variable {way : Fin indexWays}

/-- The checkpoints of every entry are those of its string. -/
def IndexSound (heap : Heap) (index : IndexCache) : Prop :=
  ∀ way points, (index.entries way).points = some points →
    Checkpoints (heap.bytes (index.entries way).str) points

/-- What the caches hold is true of the strings of the heap. -/
structure Sound (heap : Heap) (caches : Caches) : Prop where
  scan : Boundary (heap.bytes caches.scan.str) ⟨caches.scan.bytePos, caches.scan.utf16Pos⟩
  index : IndexSound heap caches.index

/-- The empty index is sound. -/
theorem indexSound_empty (epoch : UInt64) : IndexSound heap (.empty epoch) := by
  intro way points isSome
  cases isSome

section

variable (sound : IndexSound heap index)
include sound

/-- A change of the epoch, which empties the index, keeps it sound. -/
theorem IndexSound.syncEpoch (epoch : UInt64) : IndexSound heap (index.syncEpoch epoch) := by
  unfold IndexCache.syncEpoch
  split_ifs
  · exact sound
  · exact indexSound_empty epoch

/-- A fresh entry has no points, so that making room keeps the index sound. -/
theorem IndexSound.evict (str byteLen : Nat) : IndexSound heap (index.evict str byteLen) := by
  intro way points isSome
  by_cases isVictim : way = index.victim
  · simp [IndexCache.evict, isVictim] at isSome
  · simp only [IndexCache.evict, Function.update_of_ne isVictim] at isSome ⊢
    exact sound way points isSome

/-- Points may be kept in an entry if they are boundaries of the entry's string. -/
theorem IndexSound.keep {points : List IndexPoint}
    (checkpoints : Checkpoints (heap.bytes (index.entries way).str) points) :
    IndexSound heap (index.keep way points) := by
  intro other others isSome
  by_cases same : other = way
  · subst same
    simp only [IndexCache.keep, Function.update_self, some.injEq] at isSome ⊢
    rw [← isSome]
    exact checkpoints
  · simp only [IndexCache.keep, Function.update_of_ne same] at isSome ⊢
    exact sound other others isSome

end

/-- An entry that is found is an entry of the string that was looked for. -/
theorem IndexCache.str_of_find (found : index.find str byteLen = some way) :
    (index.entries way).str = str := by
  have isFor : (index.entries way).isFor str byteLen = true := by
    unfold IndexCache.find at found
    split_ifs at found with used
    · obtain rfl := some.inj found
      exact used
    · have isOther := find?_some found
      exact (Bool.and_eq_true_iff.mp isOther).2
  exact beq_iff_eq.mp (Bool.and_eq_true_iff.mp isFor).1

/-- The points of an entry are boundaries of its string, whether they were kept or are built
now. -/
theorem IndexSound.pointsOf (sound : IndexSound heap index) (isFor : (index.entries way).str = str)
    (short : (heap.bytes str).length ≤ 0xFFFFFFFF) :
    (∀ points, (index.pointsOf call (heap.bytes str) way).1 = some points →
      Checkpoints (heap.bytes str) points) ∧
    IndexSound heap (index.pointsOf call (heap.bytes str) way).2 := by
  unfold IndexCache.pointsOf
  cases kept : (index.entries way).points with
  | some points =>
    refine ⟨fun found isFound => ?_, sound⟩
    obtain rfl := some.inj isFound
    rw [← isFor]
    exact sound way points kept
  | none =>
    have built := checkpoints_indexBuild (heap.boundary_start str) short
    split_ifs
    · refine ⟨fun found isFound => ?_, sound.keep ?_⟩
      · obtain rfl := some.inj isFound
        exact built
      · rw [isFor]
        exact built
    · exact ⟨fun _ => nofun, sound⟩

/-- The index gives boundaries of the string only, and stays sound. -/
theorem IndexSound.get (sound : IndexSound heap index) :
    (∀ points, (index.get call str (heap.bytes str)).1 = some points →
      Checkpoints (heap.bytes str) points) ∧
    IndexSound heap (index.get call str (heap.bytes str)).2 := by
  unfold IndexCache.get
  split_ifs with unusual
  · exact ⟨fun _ => nofun, sound⟩
  · have synced := sound.syncEpoch call.epoch
    simp only
    cases found : (index.syncEpoch call.epoch).find str (heap.bytes str).length with
    | none => exact ⟨fun _ => nofun, synced.evict _ _⟩
    | some way =>
      have used : IndexSound heap { index.syncEpoch call.epoch with mru := way } := synced
      have isFor := IndexCache.str_of_find found
      exact used.pointsOf isFor (by omega)

section

variable (sound : Sound heap caches)
include sound

/-- The start of a query, with its check of the epoch, keeps the caches sound. -/
theorem Sound.begin : Sound heap (caches.begin call) := by
  refine ⟨?_, sound.index⟩
  unfold Caches.begin ScanCache.syncEpoch
  split_ifs
  · exact sound.scan
  · exact heap.boundary_start 0

/-- A boundary may be stored in the cursor cache. -/
theorem Sound.store
    {cursor : Cursor} (boundary : Boundary (heap.bytes str) cursor) (byteLen : Nat) :
    Sound heap (caches.store str byteLen cursor) :=
  ⟨boundary, sound.index⟩

/-- The cached place is used only for its string, and only if it is not passed. -/
theorem Sound.resume
    (place : Cursor → Nat) (atStart : place ⟨0, 0⟩ = 0) (str byteLen target : Nat) :
    let cursor := caches.scan.resume str byteLen
      (target < place ⟨caches.scan.bytePos, caches.scan.utf16Pos⟩)
    Boundary (heap.bytes str) cursor ∧ place cursor ≤ target := by
  have fromStart : Boundary (heap.bytes str) ⟨0, 0⟩ ∧ place ⟨0, 0⟩ ≤ target :=
    ⟨heap.boundary_start str, atStart.le.trans (Nat.zero_le target)⟩
  unfold ScanCache.resume
  split_ifs with isFor isPassed
  · exact fromStart
  · refine ⟨?_, Nat.le_of_not_lt (of_decide_eq_false (Bool.eq_false_iff.mpr isPassed))⟩
    rw [← isFor.1]
    exact sound.scan
  · exact fromStart

/-- A query by code unit may start where the cursor cache says. -/
theorem Sound.resumeUtf16 (str byteLen target : Nat) :
    StartsFor (heap.bytes str) target (caches.scan.resumeUtf16 str byteLen target) :=
  sound.resume Cursor.utf16Pos rfl str byteLen target

/-- A query by byte may start where the cursor cache says. -/
theorem Sound.resumeByte (str byteLen target : Nat) :
    Boundary (heap.bytes str) (caches.scan.resumeByte str byteLen target) ∧
      (caches.scan.resumeByte str byteLen target).p ≤ target :=
  sound.resume Cursor.p rfl str byteLen target

/-- A query may start where both caches together say, and they stay sound. -/
theorem Sound.resumeIndexed (call : Call) (str target : Nat) :
    StartsFor (heap.bytes str) target (caches.resumeIndexed call str (heap.bytes str) target).1 ∧
      Sound heap (caches.resumeIndexed call str (heap.bytes str) target).2 := by
  have starts := sound.resumeUtf16 str (heap.bytes str).length target
  obtain ⟨gotPoints, gotSound⟩ := @IndexSound.get heap call str _ sound.index
  unfold Caches.resumeIndexed
  simp only
  split_ifs
  · exact ⟨starts, sound⟩
  · refine ⟨?_, sound.scan, gotSound⟩
    cases got : (caches.index.get call str (heap.bytes str)).1 with
    | none => exact starts
    | some points => exact (gotPoints points got).indexSeek (heap.boundary_start str) starts

end

end Soundness

section Ascii

variable {bytes : Bytes}

section

variable (start : Boundary bytes ⟨0, 0⟩) (ascii : isAscii bytes = true)
include start ascii

/-- In an ASCII string every place is a boundary. -/
theorem boundary_ascii (inside : k ≤ bytes.length) : Boundary bytes ⟨k, k⟩ := by
  obtain ⟨front, back, valid, rfl, -⟩ := start
  generalize front ++ back = text at valid ascii inside
  have small := isAscii_utf8 ascii
  have smallFront : ∀ c ∈ text.take k, c < 0x80 := fun c isIn => small c (mem_of_mem_take isIn)
  rw [utf8_of_ascii small] at inside
  refine ⟨text.take k, text.drop k, ?_, ?_, ?_⟩
  · rw [take_append_drop]
    exact valid
  · rw [take_append_drop]
  · rw [Cursor.past, utf8_of_ascii smallFront,
      utf16_of_basic fun c isIn => Nat.lt_trans (smallFront c isIn) (by decide),
      length_take_of_le inside]
    simp [Cursor.advance]

/-- What a loop sees at a byte of an ASCII string. -/
theorem at_ascii (inside : k < bytes.length) :
    ∃ c text, (Cursor.mk k k).At bytes (c :: text) ∧ c < 0x80 ∧ bytes.getD k 0xFFFFFFFF = c := by
  obtain ⟨front, back, -, rfl, -⟩ := start
  generalize front ++ back = text at ascii inside
  have small := isAscii_utf8 ascii
  rw [utf8_of_ascii small] at inside ⊢
  have smallBack : ∀ c ∈ text.drop k, c < 0x80 := fun c isIn => small c (mem_of_mem_drop isIn)
  refine ⟨text[k], text.drop (k + 1), ?_, small _ (getElem_mem inside), getD_eq_getElem _ _ inside⟩
  rw [← drop_eq_getElem_cons inside]
  exact (utf8_of_ascii smallBack).symm

/-- A loop over an ASCII string ends at the byte it looks for or at the end of the string. -/
theorem scanUntil_ascii
    {Result : Type} {decode : Bytes → Nat × Nat} {stop : Cursor → Bytes → Option Result}
    {atEnd : Cursor → Result} (measures : Measures decode) (result : Cursor → Result)
    (resumed : scanUntil decode stop atEnd bytes bytes.length
        ⟨min target bytes.length, min target bytes.length⟩ =
      scanUntil decode stop atEnd bytes bytes.length ⟨0, 0⟩)
    (ends : bytes.length ≤ target → atEnd ⟨bytes.length, bytes.length⟩ =
      result ⟨bytes.length, bytes.length⟩)
    (stops : ∀ c rest, c < 0x80 → bytes.getD target 0xFFFFFFFF = c →
      stop ⟨target, target⟩ (utf8Bytes c ++ rest) = some (result ⟨target, target⟩)) :
    scanUntil decode stop atEnd bytes bytes.length ⟨0, 0⟩ =
      result ⟨min target bytes.length, min target bytes.length⟩ := by
  rw [← resumed]
  by_cases inside : target < bytes.length
  · obtain ⟨c, text, here, small, byte⟩ := at_ascii start ascii inside
    obtain ⟨fuel, fuelEq⟩ := Nat.exists_eq_succ_of_ne_zero (Nat.ne_zero_of_lt inside)
    rw [Nat.min_eq_left inside.le, fuelEq,
      scanUntil_cons measures here (Nat.lt_trans small (by decide)), stops c _ small byte]
    rfl
  · have outside := Nat.le_of_not_lt inside
    rw [Nat.min_eq_right outside, scanUntil_atEnd (drop_of_length_le (Nat.le_refl _))]
    exact ends outside

end

section Results

variable (start : Boundary bytes ⟨0, 0⟩) (ascii : isAscii bytes = true)

include start ascii

/-- In ASCII text every place is a boundary, with as many code units as bytes. -/
theorem boundary_min (target : Nat) :
    Boundary bytes ⟨min target bytes.length, min target bytes.length⟩ :=
  boundary_ascii start ascii (Nat.min_le_right _ _)

/-- In ASCII text a loop comes to its target exactly. -/
theorem advanceWhile_ascii (target : Nat) :
    advanceWhile (fun here => here.utf16Pos < target) bytes.length bytes ⟨0, 0⟩ =
      (⟨min target bytes.length, min target bytes.length⟩, true) := by
  refine scanUntil_ascii start ascii measures_decodeUnits (fun cursor => (cursor, true))
    ((boundary_min start ascii target).advanceWhile_utf16 (Nat.min_le_left _ _)) (fun _ => rfl) ?_
  intro c rest _ _
  exact if_neg (by simp)

/-- In ASCII text the search for an index gives what the short cut gives. -/
theorem indexFrom_ascii (target : Nat) :
    (indexFrom bytes target ⟨0, 0⟩).1 = asciiIndex bytes.length target := by
  rw [indexFrom, advanceWhile_ascii start ascii, asciiIndex]
  by_cases inside : target < bytes.length
  · obtain ⟨c, text, here, small, -⟩ := at_ascii start ascii inside
    have oneByte : (decodeUnits (bytes.drop target)).1 = 1 := by
      rw [show bytes.drop target = utf8Bytes c ++ utf8 text from here,
        measures_decodeUnits c _ (Nat.lt_trans small (by decide)), utf8Bytes, if_pos small]
      rfl
    simp only [Nat.min_eq_left inside.le]
    rw [if_neg (Nat.not_le.mpr inside), if_neg (Nat.lt_asymm inside), if_pos inside, oneByte]
  · simp only [Nat.min_eq_right (Nat.le_of_not_lt inside)]
    rw [if_pos (Nat.le_refl _), if_neg inside]
    by_cases atEnd : bytes.length = target
    · rw [if_pos atEnd, if_neg (Nat.not_lt.mpr atEnd.ge), atEnd]
    · rw [if_neg atEnd, if_pos (by omega)]

/-- In ASCII text the floor of an index is the index itself, up to the length. -/
theorem floorFrom_ascii (target : Nat) :
    (floorFrom bytes target ⟨0, 0⟩).p = if bytes.length < target then bytes.length else target := by
  have result : floorFrom bytes target ⟨0, 0⟩ =
      ⟨min target bytes.length, min target bytes.length⟩ :=
    scanUntil_ascii start ascii measures_decodeUnits id
      ((boundary_min start ascii target).floorFrom_eq
      (Nat.min_le_left _ _)) (fun _ => rfl) fun _ _ _ _ => if_neg (Nat.lt_irrefl _)
  rw [result]
  simp only
  split_ifs <;> omega

/-- In ASCII text the code units before a byte are the bytes before it. -/
theorem unitsFrom_ascii (inside : target ≤ bytes.length) :
    unitsFrom bytes target ⟨0, 0⟩ = (⟨target, target⟩, true) := by
  have scanned := scanUntil_ascii start ascii measures_decodeUnits (fun cursor => (cursor, true))
    ((boundary_min start ascii target).unitsFrom_eq (Nat.min_le_left _ _)) (fun _ => rfl)
    fun _ _ _ _ => if_neg (by simp)
  rwa [Nat.min_eq_left inside] at scanned

/-- In ASCII text the code unit at an index is the byte there, and past the end the mark for
none. -/
theorem findFrom_ascii {atStart : Nat → Nat → Nat} (basic : ∀ c, atStart 1 c = c) (target : Nat) :
    (findFrom atStart bytes target ⟨0, 0⟩).1 = bytes.getD target 0xFFFFFFFF := by
  have result : findFrom atStart bytes target ⟨0, 0⟩ =
      (bytes.getD target 0xFFFFFFFF, ⟨min target bytes.length, min target bytes.length⟩) := by
    refine scanUntil_ascii start ascii measures_decodePoint (fun cursor => (_, cursor))
      ((boundary_min start ascii target).findFrom_eq atStart (Nat.min_le_left _ _)) ?_ ?_
    · intro outside
      rw [getD_eq_default _ _ outside]
    · intro c rest small byte
      have unit : width c = 1 := if_pos (Nat.lt_trans small (by decide))
      rw [stopAt, scanCodePoint_append (Nat.lt_trans small (by decide)), byte]
      simp [unit, basic]
  rw [result]

/-- In ASCII text an end of a range is found at its own index. -/
theorem seek_ascii (split : Cursor → Bytes → Nat × Cursor) (target : Nat) :
    seek split bytes target bytes.length ⟨0, 0⟩ =
      (0, ⟨min target bytes.length, min target bytes.length⟩) := by
  refine scanUntil_ascii start ascii measures_decodeUnits (fun cursor => (0, cursor))
    ((boundary_min start ascii target).seek_eq split (Nat.min_le_left _ _)) (fun _ => rfl) ?_
  intro c rest _ _
  exact if_neg (Nat.lt_irrefl _)

/-- In ASCII text the search for a range gives what the short cut gives. -/
theorem rangeFrom_ascii (nonempty : utf16Start < utf16End) :
    (rangeFrom bytes utf16Start utf16End ⟨0, 0⟩).1 = asciiRange bytes.length utf16Start
    utf16End := by
  have before : min utf16Start bytes.length ≤ utf16End :=
    Nat.le_trans (Nat.min_le_left _ _) nonempty.le
  rw [rangeFrom, (seekStart_seekEnd_eq _).1, seek_ascii start ascii, asciiRange]
  simp only [seekStart_seekEnd_eq]
  rw [(boundary_min start ascii utf16Start).seek_eq splitEnd before, seek_ascii start ascii]
  simp only [Nat.min_def]

end Results

end Ascii

section Queries

variable {heap : Heap} {caches : Caches}

/-- A query is settled: its answer is the one of the scan from the start, and the caches
stay sound. -/
def Settled (heap : Heap) {Result : Type} (expected : Result) (result : Result × Caches) : Prop :=
  result.1 = expected ∧ Sound heap result.2

section

variable (sound : Sound heap caches)
include sound

/-- The byte offset of an index does not depend on the caches. -/
theorem Sound.utf16IndexToByteOffset (call : Call) (str utf16Idx : Nat) :
    Settled heap (indexFrom (heap.bytes str) utf16Idx ⟨0, 0⟩).1
      (utf16IndexToByteOffset call str (heap.bytes str) utf16Idx caches) := by
  unfold Strings.utf16IndexToByteOffset
  split_ifs with ascii
  · exact ⟨(indexFrom_ascii (heap.boundary_start str) ascii utf16Idx).symm, sound⟩
  · obtain ⟨⟨boundary, reached⟩, resumed⟩ := (@Sound.begin _ _ call sound).resumeIndexed call str
      utf16Idx
    refine ⟨?_, resumed.store boundary.indexFrom _⟩
    simp only
    rw [indexFrom, boundary.advanceWhile_utf16 reached]
    rfl

/-- The floor of an index does not depend on the caches. -/
theorem Sound.utf16IndexToByteOffsetFloor (call : Call) (str utf16Idx : Nat) :
    Settled heap (floorFrom (heap.bytes str) utf16Idx ⟨0, 0⟩).p
      (utf16IndexToByteOffsetFloor call str (heap.bytes str) utf16Idx caches) := by
  rw [Strings.utf16IndexToByteOffsetFloor]
  by_cases ascii : isAscii (heap.bytes str) = true
  · rw [if_pos ascii]
    exact ⟨(floorFrom_ascii (heap.boundary_start str) ascii utf16Idx).symm, sound⟩
  · rw [if_neg ascii]
    have begun := @Sound.begin _ _ call sound
    obtain ⟨boundary, reached⟩ := begun.resumeUtf16 str (heap.bytes str).length utf16Idx
    refine ⟨?_, begun.store boundary.floorFrom _⟩
    simp only
    rw [boundary.floorFrom_eq reached]

/-- The byte range of a range of indices does not depend on the caches. -/
theorem Sound.cachedRangeToByteRange (call : Call) (str utf16Start utf16End : Nat) :
    Settled heap
      (if utf16End ≤ utf16Start then ⟨0, 0, 0, 0⟩
        else (rangeFrom (heap.bytes str) utf16Start utf16End ⟨0, 0⟩).1)
      (cachedRangeToByteRange call str (heap.bytes str) utf16Start utf16End caches) := by
  unfold Strings.cachedRangeToByteRange
  split_ifs with empty ascii
  · exact ⟨rfl, sound⟩
  · exact ⟨(rangeFrom_ascii (heap.boundary_start str) ascii (Nat.lt_of_not_le empty)).symm, sound⟩
  · obtain ⟨⟨boundary, reached⟩, resumed⟩ :=
      (@Sound.begin _ _ call sound).resumeIndexed call str utf16Start
    refine ⟨?_, resumed.store (boundary.rangeFrom utf16End) _⟩
    simp only
    rw [rangeFrom, (seekStart_seekEnd_eq _).1, boundary.seek_eq splitStart reached,
      ← (seekStart_seekEnd_eq _).1]
    rfl

/-- The index of a byte offset does not depend on the caches. -/
theorem Sound.byteOffsetToUtf16
    (call : Call) (inside : byteOff ≤ (heap.bytes str).length) :
    Settled heap (unitsFrom (heap.bytes str) byteOff ⟨0, 0⟩).1.utf16Pos
      (byteOffsetToUtf16 call str (heap.bytes str) byteOff caches) := by
  unfold Strings.byteOffsetToUtf16
  split_ifs with ascii
  · refine ⟨?_, sound⟩
    rw [unitsFrom_ascii (heap.boundary_start str) ascii inside]
  · have begun := @Sound.begin _ _ call sound
    obtain ⟨boundary, reached⟩ := begun.resumeByte str byteOff byteOff
    constructor
    · simp only
      rw [boundary.unitsFrom_eq reached]
    · simp only
      split_ifs with between
      · exact begun.store (boundary.advanceWhile _ _ between) _
      · exact begun

/-- The code unit at an index does not depend on the caches. -/
theorem Sound.cachedFind
    {atStart : Nat → Nat → Nat} (basic : ∀ c, atStart 1 c = c) (call : Call) (str utf16Idx : Nat) :
    Settled heap (findFrom atStart (heap.bytes str) utf16Idx ⟨0, 0⟩).1
      (cachedFind atStart call str (heap.bytes str) utf16Idx caches) := by
  unfold Strings.cachedFind
  split_ifs with ascii
  · exact ⟨(findFrom_ascii (heap.boundary_start str) ascii basic utf16Idx).symm, sound⟩
  · obtain ⟨⟨boundary, reached⟩, resumed⟩ := (@Sound.begin _ _ call sound).resumeIndexed call str
      utf16Idx
    refine ⟨?_, resumed.store (boundary.findFrom atStart) _⟩
    simp only
    rw [boundary.findFrom_eq atStart reached]

/-- In every sound state a query gets the answer of the scan from the start. -/
theorem Sound.answer (asked : Call × Query heap) :
    (answer asked caches).1 = scannedAnswer asked.2 ∧ Sound heap (answer asked caches).2 := by
  obtain ⟨call, query⟩ := asked
  cases query with
  | indexToByteOffset str utf16Idx =>
    obtain ⟨answered, kept⟩ := sound.utf16IndexToByteOffset call str utf16Idx
    exact ⟨congrArg Answer.offset answered, kept⟩
  | indexToByteOffsetFloor str utf16Idx =>
    obtain ⟨answered, kept⟩ := sound.utf16IndexToByteOffsetFloor call str utf16Idx
    exact ⟨congrArg Answer.size answered, kept⟩
  | rangeToByteRange str utf16Start utf16End =>
    obtain ⟨answered, kept⟩ := sound.cachedRangeToByteRange call str utf16Start utf16End
    refine ⟨(congrArg Answer.range answered).trans ?_, kept⟩
    exact apply_ite Answer.range _ _ _
  | byteOffsetToUtf16 str byteOff inside =>
    obtain ⟨answered, kept⟩ := sound.byteOffsetToUtf16 call inside
    exact ⟨congrArg Answer.size answered, kept⟩
  | codeUnitAt str utf16Idx =>
    have basic (c : Nat) : firstUnit 1 c = c := rfl
    obtain ⟨answered, kept⟩ := sound.cachedFind basic call str utf16Idx
    exact ⟨congrArg Answer.size answered, kept⟩
  | codepointAt str utf16Idx =>
    have basic (c : Nat) : wholePoint 1 c = c := rfl
    obtain ⟨answered, kept⟩ := sound.cachedFind basic call str utf16Idx
    exact ⟨congrArg Answer.size answered, kept⟩

end

/-- Whatever was asked before, of this string or another, every query gets the answer of a
scan from the start of its string. -/
theorem answers_eq_scanned (heap : Heap) (asked : List (Call × Query heap)) :
    Machine.answers answer asked .initial = asked.map fun one => scannedAnswer one.2 :=
  Machine.answers_eq_map (Sound heap) (fun one _ sound => sound.answer one) asked
    ⟨heap.boundary_start 0, indexSound_empty 0⟩

end Queries

end AntRuntime.Strings
