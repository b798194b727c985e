import Mathlib.Data.List.TakeWhile
import Mathlib.Data.List.Basic

/-!
# Form-encoded queries

`form_urlencode_n` and `form_urldecode_len`, the parser `parse_query_to_arr` and the
serialiser `usp_serialize`. The serialiser encodes a name by its length; the parser
measures the decoded name with `strlen`, so it loses what follows a NUL.
-/

namespace AntRuntime.Url

open List

/-- The bytes of a string. -/
abbrev Bytes := List UInt8

/-- A name and a value. -/
abbrev Entry := Bytes × Bytes

section Model

/-- The text a C function sees. -/
def cString (bytes : Bytes) : Bytes :=
  bytes.takeWhile (· ≠ 0)

variable (c : UInt8)

/-- `isdigit`. -/
def isDigit : Bool :=
  0x30 ≤ c && c ≤ 0x39

/-- `isxdigit`. -/
def isHexDigit : Bool :=
  isDigit c || (0x41 ≤ c && c ≤ 0x46) || (0x61 ≤ c && c ≤ 0x66)

/-- `isalnum`. -/
def isAlnum : Bool :=
  isDigit c || (0x41 ≤ c && c ≤ 0x5A) || (0x61 ≤ c && c ≤ 0x7A)

/-- A byte that is its own encoding. -/
def isPlain : Bool :=
  isAlnum c || c == 0x2A || c == 0x2D || c == 0x2E || c == 0x5F

/-- An upper-case hexadecimal digit, as `"%02X"` prints it. -/
def hexDigit (n : UInt8) : UInt8 :=
  if n < 10 then 0x30 + n else 0x37 + n

/-- One byte of `form_urlencode_n`. -/
def encodeByte : Bytes :=
  if isPlain c then [c]
  else if c = 0x20 then [0x2B]
  else [0x25, hexDigit (c / 16), hexDigit (c % 16)]

/-- `form_urlencode_n`. -/
def formUrlencode (bytes : Bytes) : Bytes :=
  bytes.flatMap encodeByte

/-- `tolower` on a letter. -/
def toLower : UInt8 :=
  if 0x41 ≤ c && c ≤ 0x5A then c + 0x20 else c

/-- The value of a hexadecimal digit. -/
def hexValue : UInt8 :=
  if isDigit c then c - 0x30 else toLower c - 0x61 + 10

/-- `form_urldecode_len`. -/
def formUrldecode : Bytes → Bytes
  | [] => []
  | c :: rest =>
    if c = 0x2B then 0x20 :: formUrldecode rest
    else if c = 0x25 then
      match rest with
      | high :: low :: rest =>
        if isHexDigit high && isHexDigit low then
          (hexValue high * 16 + hexValue low) :: formUrldecode rest
        else c :: formUrldecode (high :: low :: rest)
      | rest => c :: formUrldecode rest
    else c :: formUrldecode rest

/-- The name and the value of a pair, split at the first `=`. -/
def parsePair (pair : Bytes) : Entry :=
  (cString (formUrldecode (pair.takeWhile (· ≠ 0x3D))),
    cString (formUrldecode ((pair.dropWhile (· ≠ 0x3D)).drop 1)))

/-- The loop of `parse_query_to_arr` from the position on. -/
def parseLoop : Nat → Bytes → List Entry
  | 0, _ => []
  | _ + 1, [] => []
  | fuel + 1, c :: rest =>
    -- An empty pair is skipped.
    if c = 0x26 then parseLoop fuel rest
    else
      parsePair ((c :: rest).takeWhile (· ≠ 0x26)) ::
        parseLoop fuel (((c :: rest).dropWhile (· ≠ 0x26)).drop 1)

/-- `parse_query_to_arr`. -/
def parseQueryToArr (query : Bytes) : List Entry :=
  parseLoop (cString query).length (cString query)

/-- One pair of `usp_serialize`. -/
def serializeEntry (entry : Entry) : Bytes :=
  formUrlencode entry.1 ++ [0x3D] ++ formUrlencode entry.2

/-- The loop of `usp_serialize`: `buf` holds what was written before. -/
def serializeLoop (buf : Bytes) : List Entry → Bytes
  | [] => buf
  | entry :: entries =>
    serializeLoop (buf ++ (if buf = [] then [] else [0x26]) ++ serializeEntry entry) entries

/-- `usp_serialize`. -/
def uspSerialize (entries : List Entry) : Bytes :=
  serializeLoop [] entries

end Model

section Bytes

/-- No NUL in a name or a value. -/
def NulFree (entries : List Entry) : Prop :=
  ∀ entry ∈ entries, 0 ∉ entry.1 ∧ 0 ∉ entry.2

/-- The bytes a serialised query is made of. -/
def isEncoded (c : UInt8) : Bool :=
  isPlain c || c == 0x2B || c == 0x25 || c == 0x3D || c == 0x26

/-- What holds for 256 numbers holds for every byte. -/
theorem forall_byte {property : UInt8 → Prop} (all : ∀ n : Fin 256, property (UInt8.ofFin n))
    (c : UInt8) : property c := by
  have here := all c.toFin
  rwa [UInt8.ofFin_toFin] at here

theorem isPlain_ne : ∀ c : UInt8, isPlain c = true →
    c ≠ 0 ∧ c ≠ 0x2B ∧ c ≠ 0x25 ∧ c ≠ 0x3D ∧ c ≠ 0x26 ∧ c ≠ 0x3F := by
  apply forall_byte
  decide +kernel

theorem hexDigit_spec : ∀ c : UInt8,
    isHexDigit (hexDigit (c / 16)) = true ∧ isHexDigit (hexDigit (c % 16)) = true ∧
      isPlain (hexDigit (c / 16)) = true ∧ isPlain (hexDigit (c % 16)) = true ∧
      hexValue (hexDigit (c / 16)) * 16 + hexValue (hexDigit (c % 16)) = c := by
  apply forall_byte
  decide +kernel

theorem mem_encodeByte (isIn : b ∈ encodeByte c) :
    isPlain b = true ∨ b = 0x2B ∨ b = 0x25 := by
  obtain ⟨-, -, highPlain, lowPlain, -⟩ := hexDigit_spec c
  unfold encodeByte at isIn
  split_ifs at isIn with plain space
  · rw [mem_singleton.mp isIn]
    exact Or.inl plain
  · rw [mem_singleton.mp isIn]
    exact Or.inr (Or.inl rfl)
  · simp only [mem_cons, not_mem_nil, or_false] at isIn
    rcases isIn with rfl | rfl | rfl
    · exact Or.inr (Or.inr rfl)
    · exact Or.inl highPlain
    · exact Or.inl lowPlain

/-- An encoded text has no separators. -/
theorem mem_formUrlencode {bytes : Bytes} (isIn : b ∈ formUrlencode bytes) :
    isEncoded b = true ∧ b ≠ 0 ∧ b ≠ 0x3D ∧ b ≠ 0x26 ∧ b ≠ 0x3F := by
  obtain ⟨c, -, isByte⟩ := mem_flatMap.mp isIn
  rcases mem_encodeByte isByte with plain | rfl | rfl
  · obtain ⟨notNul, -, -, notEquals, notAmp, notQuestion⟩ := isPlain_ne b plain
    refine ⟨?_, notNul, notEquals, notAmp, notQuestion⟩
    simp [isEncoded, plain]
  · decide
  · decide

theorem formUrldecode_encodeByte (c : UInt8) (rest : Bytes) :
    formUrldecode (encodeByte c ++ rest) = c :: formUrldecode rest := by
  obtain ⟨highHex, lowHex, -, -, value⟩ := hexDigit_spec c
  unfold encodeByte
  split_ifs with plain space
  · obtain ⟨-, notPlus, notPercent, -⟩ := isPlain_ne c plain
    rw [singleton_append, formUrldecode.eq_def]
    simp [notPlus, notPercent]
  · rw [singleton_append, formUrldecode.eq_def, space]
    simp
  · simp only [cons_append]
    rw [formUrldecode.eq_def]
    simp only [highHex, lowHex, value]
    rfl

/-- Decoding an encoded text gives the text. -/
theorem formUrldecode_formUrlencode (bytes : Bytes) :
    formUrldecode (formUrlencode bytes) = bytes := by
  induction bytes with
  | nil => rfl
  | cons c bytes ih =>
    rw [formUrlencode, flatMap_cons, formUrldecode_encodeByte]
    rw [formUrlencode] at ih
    rw [ih]

end Bytes

section Queries

variable {entries : List Entry}

/-- The pairs behind the first one. -/
def laterPairs (entries : List Entry) : Bytes :=
  entries.flatMap fun entry => 0x26 :: serializeEntry entry

theorem serializeEntry_ne_nil (entry : Entry) : serializeEntry entry ≠ [] := by
  simp [serializeEntry]

theorem serializeLoop_eq {buf : Bytes} (started : buf ≠ []) (entries : List Entry) :
    serializeLoop buf entries = buf ++ laterPairs entries := by
  induction entries generalizing buf with
  | nil => simp [serializeLoop, laterPairs]
  | cons entry entries ih =>
    rw [serializeLoop, if_neg started, ih (by simp [started])]
    simp [laterPairs]

theorem uspSerialize_cons (entry : Entry) (entries : List Entry) :
    uspSerialize (entry :: entries) = serializeEntry entry ++ laterPairs entries := by
  rw [uspSerialize, serializeLoop, if_pos rfl, nil_append, nil_append,
    serializeLoop_eq (serializeEntry_ne_nil entry)]

theorem mem_serializeEntry {entry : Entry} (isIn : b ∈ serializeEntry entry) :
    isEncoded b = true ∧ b ≠ 0 ∧ b ≠ 0x26 := by
  simp only [serializeEntry, mem_append, mem_singleton] at isIn
  rcases isIn with (inName | rfl) | inValue
  · obtain ⟨encoded, notNul, -, notAmp, -⟩ := mem_formUrlencode inName
    exact ⟨encoded, notNul, notAmp⟩
  · decide
  · obtain ⟨encoded, notNul, -, notAmp, -⟩ := mem_formUrlencode inValue
    exact ⟨encoded, notNul, notAmp⟩

/-- A serialised query is made of encoded bytes. -/
theorem mem_uspSerialize (isIn : b ∈ uspSerialize entries) :
    isEncoded b = true ∧ b ≠ 0 := by
  cases entries with
  | nil => cases isIn
  | cons entry entries =>
    rw [uspSerialize_cons, mem_append] at isIn
    rcases isIn with inFirst | inLater
    · obtain ⟨encoded, notNul, -⟩ := mem_serializeEntry inFirst
      exact ⟨encoded, notNul⟩
    · obtain ⟨other, -, inOther⟩ := mem_flatMap.mp inLater
      rcases mem_cons.mp inOther with rfl | inPair
      · decide
      · obtain ⟨encoded, notNul, -⟩ := mem_serializeEntry inPair
        exact ⟨encoded, notNul⟩

theorem cString_eq_self_iff (bytes : Bytes) : cString bytes = bytes ↔ 0 ∉ bytes := by
  rw [cString, takeWhile_eq_self_iff]
  constructor
  · intro all isIn
    exact absurd (all 0 isIn) (by simp)
  · intro noNul c isIn
    exact decide_eq_true fun isNul => noNul (isNul ▸ isIn)

theorem zero_notMem_cString (bytes : Bytes) : 0 ∉ cString bytes := by
  intro isIn
  exact absurd (mem_takeWhile_imp isIn) (by simp)

/-- A pair is parsed up to the first NUL of its name and its value. -/
theorem parsePair_serializeEntry (entry : Entry) :
    parsePair (serializeEntry entry) = (cString entry.1, cString entry.2) := by
  have noEquals : ∀ b ∈ formUrlencode entry.1, decide (b ≠ 0x3D) = true :=
    fun b isIn => decide_eq_true (mem_formUrlencode isIn).2.2.1
  rw [parsePair, serializeEntry, append_assoc,
    takeWhile_append_of_pos noEquals, dropWhile_append_of_pos noEquals]
  simp [formUrldecode_formUrlencode]

/-- A turn of the parser's loop reads a pair up to the next `&`. -/
theorem parseLoop_pair (fuel : Nat) (entry : Entry) (entries : List Entry) :
    parseLoop (fuel + 1) (serializeEntry entry ++ laterPairs entries) =
      (cString entry.1, cString entry.2) :: parseLoop fuel ((laterPairs entries).drop 1) := by
  have noAmp : ∀ b ∈ serializeEntry entry, decide (b ≠ 0x26) = true :=
    fun b isIn => decide_eq_true (mem_serializeEntry isIn).2.2
  have stops : (laterPairs entries).takeWhile (· ≠ 0x26) = [] ∧
      (laterPairs entries).dropWhile (· ≠ 0x26) = laterPairs entries := by
    cases entries with
    | nil => exact ⟨rfl, rfl⟩
    | cons next entries => simp [laterPairs]
  obtain ⟨first, rest, split⟩ := exists_cons_of_ne_nil (serializeEntry_ne_nil entry)
  have firstNotAmp : first ≠ 0x26 := (mem_serializeEntry (by rw [split]; exact mem_cons_self)).2.2
  have unfolded : parseLoop (fuel + 1) (serializeEntry entry ++ laterPairs entries) =
      parsePair ((serializeEntry entry ++ laterPairs entries).takeWhile (· ≠ 0x26)) ::
        parseLoop fuel
          (((serializeEntry entry ++ laterPairs entries).dropWhile (· ≠ 0x26)).drop 1) := by
    rw [split, cons_append, parseLoop, if_neg firstNotAmp]
  rw [unfolded, takeWhile_append_of_pos noAmp, dropWhile_append_of_pos noAmp,
    stops.1, stops.2, append_nil, parsePair_serializeEntry]

theorem parseLoop_serialized
    (fuel : Nat) (entry : Entry) (entries : List Entry) (enough : entries.length < fuel) :
    parseLoop fuel (serializeEntry entry ++ laterPairs entries) =
      (entry :: entries).map fun entry => (cString entry.1, cString entry.2) := by
  induction entries generalizing fuel entry with
  | nil =>
    obtain ⟨fuel, rfl⟩ := Nat.exists_eq_succ_of_ne_zero (Nat.ne_of_gt enough)
    rw [parseLoop_pair]
    cases fuel <;> rfl
  | cons next entries ih =>
    rw [length_cons] at enough
    obtain ⟨fuel, rfl⟩ := Nat.exists_eq_succ_of_ne_zero (show fuel ≠ 0 by omega)
    have behind : (laterPairs (next :: entries)).drop 1 =
        serializeEntry next ++ laterPairs entries := by
      simp [laterPairs]
    rw [parseLoop_pair, behind, ih fuel next (by omega)]
    rfl

theorem length_laterPairs (entries : List Entry) :
    entries.length ≤ (laterPairs entries).length := by
  induction entries with
  | nil => rfl
  | cons entry entries ih =>
    simp only [laterPairs, flatMap_cons, length_append, length_cons] at ih ⊢
    omega

theorem parseQueryToArr_uspSerialize (entries : List Entry) :
    parseQueryToArr (uspSerialize entries) =
      entries.map fun entry => (cString entry.1, cString entry.2) := by
  have noNul : cString (uspSerialize entries) = uspSerialize entries := by
    rw [cString_eq_self_iff]
    exact fun isIn => (mem_uspSerialize isIn).2 rfl
  rw [parseQueryToArr, noNul]
  cases entries with
  | nil => rfl
  | cons entry entries =>
    rw [uspSerialize_cons]
    apply parseLoop_serialized
    have positive := length_pos_iff.mpr (serializeEntry_ne_nil entry)
    have longer := length_laterPairs entries
    rw [length_append]
    omega

/-- A list is parsed back from its serialisation exactly if it has no NUL. -/
theorem parse_serialize_iff (entries : List Entry) :
    parseQueryToArr (uspSerialize entries) = entries ↔ NulFree entries := by
  rw [parseQueryToArr_uspSerialize]
  induction entries with
  | nil => exact ⟨fun _ entry isIn => absurd isIn not_mem_nil, fun _ => rfl⟩
  | cons entry entries ih =>
    rw [map_cons, cons.injEq, ih, NulFree, NulFree,
      forall_mem_cons, Prod.mk.injEq, cString_eq_self_iff, cString_eq_self_iff]

end Queries

end AntRuntime.Url
