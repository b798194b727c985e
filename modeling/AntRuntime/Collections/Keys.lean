import AntRuntime.BigInt.Decimal
import AntRuntime.Strings.Order

/-!
# Keys of maps and sets

`collection_key_init` flattens a value into the bytes a map or a set looks it up
by. The bytes are written into 32 bytes inside the key, or into a heap block if
they do not fit.
-/

namespace AntRuntime.Collections

open List
open BigInt (Payload decimalText writeAt)
open Strings (JsString vstr)

section Values

/-- `NANBOX_PREFIX`. -/
def nanboxPrefix : Nat := 0xFFF0000000000000

/-- `ant_value_type_t`, without the types of numbers, strings and BigInts. -/
inductive TaggedType where
  | object | array | function | builtin | promise | generator | undefined | null | bool
  | symbol | error | typedArray | functionInfo | map | set | weakMap | weakSet
  | sourceCode | sentinel
deriving DecidableEq, Repr

/-- The number of a type. -/
def TaggedType.code : TaggedType → Nat
  | .object => 0
  | .array => 2
  | .function => 3
  | .builtin => 4
  | .promise => 5
  | .generator => 6
  | .undefined => 7
  | .null => 8
  | .bool => 9
  | .symbol => 12
  | .error => 13
  | .typedArray => 14
  | .functionInfo => 15
  | .map => 16
  | .set => 17
  | .weakMap => 18
  | .weakSet => 19
  | .sourceCode => 20
  | .sentinel => 31

/-- `kTypeString`. -/
def kTypeString : Nat := 1

/-- `kTypeNumber`. -/
def kTypeNumber : Nat := 10

/-- `kTypeBigInt`. -/
def kTypeBigInt : Nat := 11

/-- A double kept as it is: its bits are not above the prefix of tagged values. -/
structure Number where
  bits : Nat
  untagged : bits ≤ nanboxPrefix

/-- A tagged value that is compared by its word: the offset of an object is never
zero. -/
structure Tagged where
  type : TaggedType
  data : Nat
  dataSmall : data < 2 ^ 47
  offset : type = .object → 0 < data

/-- A value; a string comes with its text and a BigInt with its payload. -/
inductive JsValue where
  | number (value : Number)
  | string (value : JsString)
  | bigint (value : Payload)
  | tagged (value : Tagged)

/-- `mkval`. -/
def Tagged.word (value : Tagged) : Nat :=
  nanboxPrefix + value.type.code * 2 ^ 47 + value.data

/-- `vtype`. -/
def vtype (word : Nat) : Nat :=
  if nanboxPrefix < word then word / 2 ^ 47 % 32 else kTypeNumber

/-- A NaN; the ones with the sign bit are replaced by `tov`. -/
def Number.isNaN (value : Number) : Bool :=
  decide (0x7FF0000000000000 < value.bits) && decide (value.bits < 2 ^ 63)

/-- Zero of either sign. -/
def Number.isZero (value : Number) : Bool :=
  decide (value.bits = 0) || decide (value.bits = 2 ^ 63)

/-- `normalize_map_key` on a number. -/
def normalizeMapKey (value : Number) : Nat :=
  if value.bits = 2 ^ 63 then 0 else value.bits

end Values

section Construction

/-- `collection_key_t`: the bytes there is room for, the bytes written in order,
and the length. -/
structure CollectionKey where
  capacity : Nat
  writes : List (Nat × Nat)
  len : Nat
deriving DecidableEq, Repr

/-- `collection_key_reserve`: the 32 bytes of `stack`, or a heap block. -/
def reserve (len : Nat) : Nat :=
  if len ≤ 32 then 32 else len

/-- The bytes of a word in memory. -/
def littleEndian : Nat → Nat → List Nat
  | 0, _ => []
  | count + 1, word => word % 256 :: littleEndian count (word / 256)

/-- A key of one byte and the bytes of a word. -/
def wordKey (word : Nat) : CollectionKey where
  capacity := reserve (1 + 8)
  writes := (0, vtype word) :: writeAt 1 (littleEndian 8 word)
  len := 1 + 8

/-- `collection_key_init`; a string that cannot be flattened has no bytes. -/
def collectionKeyInit : JsValue → CollectionKey
  | .string value =>
    let str := (vstr value.str).getD []
    { capacity := reserve (1 + str.length)
      writes := (0, kTypeString) :: writeAt 1 str
      len := 1 + str.length }
  | .bigint value =>
    let strLen := BigInt.digitsLen value + (if value.sign then 1 else 0)
    { capacity := reserve (1 + strLen)
      writes := (0, kTypeBigInt) ::
        if 0 < strLen then
          (BigInt.strbigint value (strLen + 1)).map fun write => (1 + write.1, write.2)
        else []
      len := 1 + strLen }
  | .number value => wordKey (normalizeMapKey value)
  | .tagged value => wordKey value.word

/-- Every byte is written where there is room. -/
def CollectionKey.InRange (key : CollectionKey) : Prop :=
  ∀ write ∈ key.writes, write.1 < key.capacity

/-- The byte last written at a place. -/
def lastWrite (writes : List (Nat × Nat)) (place : Nat) : Nat :=
  (writes.reverse.lookup place).getD 0

/-- The bytes a key is looked up by. -/
def CollectionKey.bytes (key : CollectionKey) : List Nat :=
  (range key.len).map (lastWrite key.writes)

end Construction

section Sameness

/-- SameValueZero of ECMAScript. -/
def SameValueZero : JsValue → JsValue → Prop
  | .number a, .number b =>
    (a.isNaN = true ∧ b.isNaN = true) ∨ (a.isZero = true ∧ b.isZero = true) ∨ a.bits = b.bits
  | .string a, .string b => Text.utf16 a.text = Text.utf16 b.text
  | .bigint a, .bigint b => a.toInt = b.toInt
  | .tagged a, .tagged b => a.type = b.type ∧ a.data = b.data
  | _, _ => False

/-- The text and its terminator fit into the key. -/
def FitsInline : JsValue → Prop
  | .bigint value => -(10 ^ 29 : Int) < value.toInt ∧ value.toInt < 10 ^ 30
  | _ => True

/-- Same numbers and strings are stored in the same way: NaNs have the same bits,
and strings with the same code units leave the same surrogates unjoined. -/
def StoredAlike : JsValue → JsValue → Prop
  | .number a, .number b => a.isNaN = true → b.isNaN = true → a.bits = b.bits
  | .string a, .string b =>
    Text.utf16 a.text = Text.utf16 b.text → ∀ k, Text.Seam a.text k ↔ Text.Seam b.text k
  | _, _ => True

end Sameness

section Bytes

variable {key : CollectionKey} {bytes extra : List Nat}

theorem writeAt_zero_cons (byte : Nat) (bytes : List Nat) :
    writeAt 0 (byte :: bytes) = (0, byte) :: writeAt 1 bytes := by
  simp [writeAt, Nat.add_comm 1]

theorem map_writeAt_zero (bytes : List Nat) :
    (writeAt 0 bytes).map (fun write => (1 + write.1, write.2)) = writeAt 1 bytes := by
  apply ext_getElem
  · simp [writeAt]
  · simp [writeAt]

/-- Bytes written from the start on are read back. -/
theorem lastWrite_writeAt (bytes : List Nat) (place : Nat) :
    lastWrite (writeAt 0 bytes) place = bytes.getD place 0 := by
  induction bytes using reverseRecOn with
  | nil => rfl
  | append_singleton bytes byte ih =>
    have split : writeAt 0 (bytes ++ [byte]) = writeAt 0 bytes ++ [(bytes.length, byte)] := by
      simp [writeAt]
    rw [lastWrite, split, reverse_append, reverse_singleton, singleton_append, lookup_cons]
    by_cases here : place = bytes.length
    · simp [here]
    · rw [beq_false_of_ne here]
      rw [lastWrite] at ih
      simp only [ih, getD_eq_getElem?_getD]
      rcases Nat.lt_or_gt_of_ne here with inside | outside
      · rw [getElem?_append_left inside]
      · rw [getElem?_eq_none (by omega), getElem?_eq_none (by simp; omega)]

/-- A key whose bytes are written one after the other. -/
theorem bytes_eq_of_writes (writes : key.writes = writeAt 0 (bytes ++ extra))
    (len : key.len = bytes.length) : key.bytes = bytes := by
  rw [CollectionKey.bytes, writes, len]
  apply ext_getElem
  · simp
  · intro place _ inside
    rw [getElem_map, getElem_range, lastWrite_writeAt,
      getD_eq_getElem?_getD, getElem?_append_left inside,
      getElem?_eq_getElem inside, Option.getD_some]

/-- Bytes written from the start on stay in range exactly if there is room for them. -/
theorem inRange_iff_of_writes (writes : key.writes = writeAt 0 bytes) :
    key.InRange ↔ bytes.length ≤ key.capacity := by
  rw [CollectionKey.InRange, writes]
  constructor
  · intro inRange
    by_contra tooLong
    have isIn : (key.capacity, bytes[key.capacity]) ∈ writeAt 0 bytes := by
      rw [writeAt, mem_mapIdx]
      exact ⟨key.capacity, by omega, by simp⟩
    exact absurd (inRange _ isIn) (Nat.lt_irrefl _)
  · intro fits write isIn
    rw [writeAt, mem_mapIdx] at isIn
    obtain ⟨place, inside, rfl⟩ := isIn
    omega

end Bytes

section Layout

/-- The bytes a value's key holds. -/
def keyBytes : JsValue → List Nat
  | .string value => kTypeString :: Text.utf8 value.text
  | .bigint value => kTypeBigInt :: decimalText value
  | .number value => vtype (normalizeMapKey value) :: littleEndian 8 (normalizeMapKey value)
  | .tagged value => vtype value.word :: littleEndian 8 value.word

/-- What is written behind the bytes of the key. -/
def terminator : JsValue → List Nat
  | .bigint _ => [0]
  | _ => []

theorem length_littleEndian (count word : Nat) : (littleEndian count word).length = count := by
  induction count generalizing word with
  | zero => rfl
  | succ count ih => rw [littleEndian, length_cons, ih]

/-- The text of a BigInt has at least one digit. -/
theorem length_decimalText_pos (value : Payload) : 0 < (decimalText value).length := by
  rw [decimalText, BigInt.decimalDigits]
  split_ifs <;> simp_all [BigInt.digitChars, length_pos_iff, Nat.digits_ne_nil_iff_ne_zero]

/-- What is written for a key: its bytes and a terminator, in the room reserved for the
bytes. -/
theorem writes_collectionKeyInit (value : JsValue) :
    (collectionKeyInit value).writes = writeAt 0 (keyBytes value ++ terminator value) ∧
      (collectionKeyInit value).len = (keyBytes value).length ∧
      (collectionKeyInit value).capacity = reserve (keyBytes value).length := by
  cases value with
  | string value =>
    simp only [collectionKeyInit, value.stored.vstr_eq, Option.getD_some, keyBytes,
      terminator, append_nil, writeAt_zero_cons, length_cons, Nat.add_comm 1,
      and_self]
  | bigint value =>
    simp only [collectionKeyInit, keyBytes, terminator, BigInt.digitsLen_add_sign,
      if_pos (length_decimalText_pos value), BigInt.strbigint_eq, map_writeAt_zero,
      cons_append, writeAt_zero_cons, true_and]
    rw [Nat.add_comm]
    exact ⟨rfl, rfl⟩
  | number value | tagged value =>
    simp [collectionKeyInit, wordKey, keyBytes, terminator, writeAt_zero_cons, length_littleEndian,
      and_self]

/-- The bytes of a key are the ones meant for its value. -/
theorem bytes_collectionKeyInit (value : JsValue) :
    (collectionKeyInit value).bytes = keyBytes value := by
  obtain ⟨writes, len, -⟩ := writes_collectionKeyInit value
  exact bytes_eq_of_writes writes len

/-- The terminator of a BigInt's text has room exactly if the text has at most 30
characters. -/
theorem inRange_collectionKeyInit (value : JsValue) :
    (collectionKeyInit value).InRange ↔ FitsInline value := by
  obtain ⟨writes, -, capacity⟩ := writes_collectionKeyInit value
  rw [inRange_iff_of_writes writes, capacity, length_append, reserve]
  cases value with
  | bigint value =>
    have short := BigInt.length_decimalText_le_iff (by decide : 1 < 30) value
    rw [FitsInline, ← short]
    change (decimalText value).length + 1 + 1 ≤
      (if (decimalText value).length + 1 ≤ 32 then 32 else (decimalText value).length + 1) ↔
        (decimalText value).length ≤ 30
    split_ifs <;> omega
  | string value | number value | tagged value =>
    simp only [terminator, FitsInline, length_nil, iff_true]
    split_ifs <;> omega

end Layout

section Distinct

/-- Words that fit are determined by their bytes. -/
theorem littleEndian_injective
    {count a b : Nat} (aSmall : a < 256 ^ count) (bSmall : b < 256 ^ count)
    (same : littleEndian count a = littleEndian count b) : a = b := by
  induction count generalizing a b with
  | zero => omega
  | succ count ih =>
    rw [littleEndian, littleEndian, cons.injEq] at same
    have rest := ih (by omega) (by omega) same.2
    omega

theorem code_lt (type : TaggedType) : type.code < 32 := by
  cases type <;> decide

/-- Types have different codes. -/
theorem code_injective {a b : TaggedType} (same : a.code = b.code) : a = b := by
  cases a <;> cases b <;> first | rfl | (revert same; decide)

/-- The values in this family are neither strings nor numbers nor BigInts. -/
theorem code_ne (type : TaggedType) :
    type.code ≠ kTypeString ∧ type.code ≠ kTypeNumber ∧ type.code ≠ kTypeBigInt := by
  cases type <;> decide

/-- The type of a value is read back from its word. -/
theorem vtype_word (value : Tagged) : vtype value.word = value.type.code := by
  have small := value.dataSmall
  have codeSmall := code_lt value.type
  have above : nanboxPrefix < value.word := by
    unfold Tagged.word
    by_cases isObject : value.type = .object
    · have := value.offset isObject
      omega
    · have : value.type.code ≠ TaggedType.object.code := mt code_injective isObject
      change value.type.code ≠ 0 at this
      omega
  rw [vtype, if_pos above]
  unfold Tagged.word nanboxPrefix
  omega

theorem word_lt (value : Tagged) : value.word < 256 ^ 8 := by
  have small := value.dataSmall
  have codeSmall := code_lt value.type
  unfold Tagged.word nanboxPrefix
  omega

/-- A word is determined by the type and the data in it. -/
theorem word_eq_iff (a b : Tagged) : a.word = b.word ↔ a.type = b.type ∧ a.data = b.data := by
  have aSmall := a.dataSmall
  have bSmall := b.dataSmall
  constructor
  · intro same
    unfold Tagged.word at same
    exact ⟨code_injective (by omega), by omega⟩
  · rintro ⟨type, data⟩
    rw [Tagged.word, Tagged.word, type, data]

/-- A number stays a number when it is normalised. -/
theorem vtype_normalizeMapKey (value : Number) : vtype (normalizeMapKey value) = kTypeNumber := by
  have untagged := value.untagged
  unfold vtype normalizeMapKey
  split_ifs <;> first | rfl | omega

theorem normalizeMapKey_lt (value : Number) : normalizeMapKey value < 256 ^ 8 := by
  have untagged := value.untagged
  unfold nanboxPrefix at untagged
  unfold normalizeMapKey
  split_ifs <;> omega

/-- Two numbers have the same normalised word if both are zero or their bits are the same. -/
theorem normalizeMapKey_eq_iff (a b : Number) :
    normalizeMapKey a = normalizeMapKey b ↔
      (a.isZero = true ∧ b.isZero = true) ∨ a.bits = b.bits := by
  simp only [normalizeMapKey, Number.isZero, Bool.or_eq_true, decide_eq_true_eq]
  split_ifs <;> omega

/-- The keys of numbers. -/
theorem number_key_iff (a b : Number) :
    (keyBytes (.number a) = keyBytes (.number b) ↔
        SameValueZero (.number a) (.number b)) ↔
      StoredAlike (.number a) (.number b) := by
  have sameWord : keyBytes (.number a) = keyBytes (.number b) ↔
      normalizeMapKey a = normalizeMapKey b := by
    rw [keyBytes, keyBytes, vtype_normalizeMapKey, vtype_normalizeMapKey, cons.injEq]
    constructor
    · rintro ⟨-, same⟩
      exact littleEndian_injective (normalizeMapKey_lt a) (normalizeMapKey_lt b) same
    · intro same
      rw [same]
      exact ⟨rfl, rfl⟩
  have nanNotZero (value : Number) (isNaN : value.isNaN = true) : value.isZero = false := by
    simp only [Number.isNaN, Number.isZero, Bool.and_eq_true, decide_eq_true_eq,
      Bool.or_eq_false_iff, decide_eq_false_iff_not] at isNaN ⊢
    omega
  rw [sameWord, normalizeMapKey_eq_iff]
  constructor
  · intro right aNaN bNaN
    rcases right.mpr (Or.inl ⟨aNaN, bNaN⟩) with ⟨aZero, -⟩ | same
    · rw [nanNotZero a aNaN] at aZero
      cases aZero
    · exact same
  · intro alike
    constructor
    · exact Or.inr
    · rintro (⟨aNaN, bNaN⟩ | same)
      · exact Or.inr (alike aNaN bNaN)
      · exact same

/-- The keys of strings. -/
theorem string_key_iff (a b : JsString) :
    (keyBytes (.string a) = keyBytes (.string b) ↔
        SameValueZero (.string a) (.string b)) ↔
      StoredAlike (.string a) (.string b) := by
  have sameText : keyBytes (.string a) = keyBytes (.string b) ↔ a.text = b.text := by
    rw [keyBytes, keyBytes, cons.injEq]
    constructor
    · rintro ⟨-, same⟩
      exact Text.utf8_injective same
    · intro same
      rw [same]
      exact ⟨rfl, rfl⟩
  rw [sameText, SameValueZero]
  constructor
  · intro right units k
    rw [right.mpr units]
  · intro alike
    constructor
    · intro same
      rw [same]
    · intro units
      exact Text.eq_of_utf16_of_seams a.stored.valid b.stored.valid units (alike units)

/-- The keys of BigInts. -/
theorem bigint_key_iff (a b : Payload) :
    keyBytes (.bigint a) = keyBytes (.bigint b) ↔ a.toInt = b.toInt := by
  rw [keyBytes, keyBytes, cons.injEq]
  constructor
  · rintro ⟨-, same⟩
    exact BigInt.toInt_eq_of_decimalText same
  · intro same
    rw [decimalText, decimalText, a.sign_eq, b.sign_eq, ← a.natAbs_toInt, ← b.natAbs_toInt, same]
    exact ⟨rfl, rfl⟩

/-- The keys of the other values. -/
theorem tagged_key_iff (a b : Tagged) :
    keyBytes (.tagged a) = keyBytes (.tagged b) ↔ a.type = b.type ∧ a.data = b.data := by
  rw [← word_eq_iff, keyBytes, keyBytes, cons.injEq]
  constructor
  · rintro ⟨-, same⟩
    exact littleEndian_injective (word_lt a) (word_lt b) same
  · intro same
    rw [same]
    exact ⟨rfl, rfl⟩

/-- The first byte of a key. -/
def tagOf : JsValue → Nat
  | .number _ => kTypeNumber
  | .string _ => kTypeString
  | .bigint _ => kTypeBigInt
  | .tagged value => value.type.code

/-- The first byte of a key tells the family of its value. -/
theorem head?_keyBytes (value : JsValue) : (keyBytes value).head? = some (tagOf value) := by
  cases value with
  | number value => exact congrArg some (vtype_normalizeMapKey value)
  | string value | bigint value => rfl
  | tagged value => exact congrArg some (vtype_word value)

/-- Keys are equal exactly for same values, if numbers and strings are stored
alike. -/
theorem keyBytes_iff (x y : JsValue) :
    (keyBytes x = keyBytes y ↔ SameValueZero x y) ↔ StoredAlike x y := by
  -- Values of different kinds are never the same and have different first bytes.
  have differ (tags : tagOf x ≠ tagOf y) (notSame : ¬ SameValueZero x y) (alike : StoredAlike x y) :
      (keyBytes x = keyBytes y ↔ SameValueZero x y) ↔ StoredAlike x y :=
    iff_of_true (iff_of_false (fun same => tags <| by
      rw [← Option.some.injEq, ← head?_keyBytes, ← head?_keyBytes, same]) notSame) alike
  obtain ⟨numberString, numberBigInt, stringBigInt⟩ :
      kTypeNumber ≠ kTypeString ∧ kTypeNumber ≠ kTypeBigInt ∧ kTypeString ≠ kTypeBigInt := by
    decide
  cases x with
  | number a =>
    cases y with
    | number b => exact number_key_iff a b
    | string b => exact differ numberString id trivial
    | bigint b => exact differ numberBigInt id trivial
    | tagged b => exact differ (code_ne b.type).2.1.symm id trivial
  | string a =>
    cases y with
    | number b => exact differ numberString.symm id trivial
    | string b => exact string_key_iff a b
    | bigint b => exact differ stringBigInt id trivial
    | tagged b => exact differ (code_ne b.type).1.symm id trivial
  | bigint a =>
    cases y with
    | number b => exact differ numberBigInt.symm id trivial
    | string b => exact differ stringBigInt.symm id trivial
    | bigint b => exact iff_of_true (bigint_key_iff a b) trivial
    | tagged b => exact differ (code_ne b.type).2.2.symm id trivial
  | tagged a =>
    cases y with
    | number b => exact differ (code_ne a.type).2.1 id trivial
    | string b => exact differ (code_ne a.type).1 id trivial
    | bigint b => exact differ (code_ne a.type).2.2 id trivial
    | tagged b => exact iff_of_true (tagged_key_iff a b) trivial

end Distinct

/-- Two values get keys written where there is room, and equal exactly if the
values are the same, exactly if BigInts are short and numbers and strings are stored
alike. -/
theorem collectionKeyInit_iff (x y : JsValue) :
    ((collectionKeyInit x).InRange ∧ (collectionKeyInit y).InRange ∧
        ((collectionKeyInit x).bytes = (collectionKeyInit y).bytes ↔
          SameValueZero x y)) ↔
      FitsInline x ∧ FitsInline y ∧ StoredAlike x y := by
  rw [inRange_collectionKeyInit, inRange_collectionKeyInit, bytes_collectionKeyInit,
    bytes_collectionKeyInit, keyBytes_iff]

/-- The BigInt `10n ** 30n`. -/
def tenToThirty : Payload where
  sign := false
  limbs := [0x40000000, 0x4674EDEA, 0x9F2C9CD0, 0xC]
  nonempty := by decide
  normalized := by decide +kernel
  zero_nonneg := by decide

/-- The canonical NaN. -/
def quietNaN : Number := ⟨0x7FF8000000000000, by decide⟩

/-- A NaN with another payload, as read from a `Float64Array`. -/
def otherNaN : Number := ⟨0x7FF8000000000001, by decide⟩

/-- A BigInt of 31 digits is written past the 32 bytes of its key, and two NaNs
get different keys. -/
theorem collectionKeyInit_wrong :
    ¬ (collectionKeyInit (.bigint tenToThirty)).InRange ∧
      SameValueZero (.number quietNaN) (.number otherNaN) ∧
      (collectionKeyInit (.number quietNaN)).bytes ≠
        (collectionKeyInit (.number otherNaN)).bytes := by
  refine ⟨?_, Or.inl (by decide), by decide +kernel⟩
  rw [inRange_collectionKeyInit]
  rintro ⟨-, small⟩
  revert small
  decide +kernel

end AntRuntime.Collections
