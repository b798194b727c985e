import AntRuntime.Machine.Runs
import AntRuntime.Objects.Model
import Mathlib.Data.List.ReduceOption
import Mathlib.Data.List.DropRight
import Mathlib.Data.List.Sort

/-!
# The own keys of an object

`js_own_property_keys` finds keys in three places: the string of a String wrapper, the dense
buffer of an array and the slots of the shape. A deleted slot stays behind as a tombstone until
the shape is compacted. The keys should come as array indices in ascending order, then `length`
and the other strings as they were created, then the symbols.
-/

namespace AntRuntime.Objects

open List

/-- A property of a shape: its key and `ANT_PROP_ATTR_ENUMERABLE`. -/
structure ShapeSlot where
  key : Key
  enumerable : Bool
  deriving DecidableEq

/-- The objects whose keys are listed; a String wrapper has the length of its string. -/
inductive KeyedKind
  | ordinary
  | array
  | string (length : Nat)
  deriving DecidableEq

/-- An object as its keys are listed: the slots of its shape, which elements its dense buffer has,
and the properties in the order in which they were created. -/
structure Keyed where
  kind : KeyedKind
  slots : List (Option ShapeSlot)
  dense : List Bool
  created : List ShapeSlot

/-- A change of an object: a property is added or redefined, one is copied by `Object.assign`, one
is deleted, or an array operation changes the dense buffer. -/
inductive KeyedEvent
  | define (key : Key) (enumerable : Bool)
  | assign (key : Key)
  | delete (key : Key)
  | store (dense : List Bool)

/-- The index that a key is, if it is one. -/
def Key.toIndex : Key → Option Nat
  | .index i => some i
  | _ => none

/-- The key is a symbol. -/
def Key.isSymbol : Key → Bool
  | .symbol _ => true
  | _ => false

namespace Keyed

/-- `SHAPE_COMPACT_MIN_TOMBSTONES` -/
def compactMinTombstones : Nat := 32

/-- `ant_shape_remove_slot`, which also drops the tombstones at the end, and the compaction of
`obj_delete_prop_slot`. -/
def removeSlot (key : Key) (slots : List (Option ShapeSlot)) : List (Option ShapeSlot) :=
  let marked := slots.map (Option.filter fun slot => slot.key != key)
  let trimmed := marked.rdropWhile Option.isNone
  let deleted := trimmed.countP Option.isNone
  if compactMinTombstones ≤ deleted ∧ trimmed.length - deleted ≤ deleted then
    trimmed.reduceOption.map some
  else trimmed

/-- One property redefined. -/
def redefine (key : Key) (enumerable : Bool) (slot : ShapeSlot) : ShapeSlot :=
  if slot.key = key then { slot with enumerable } else slot

/-- A property written to the shape. -/
def put (object : Keyed) (key : Key) (enumerable : Bool) : Keyed :=
  if object.slots.reduceOption.any (·.key == key) then
    { object with
      slots := object.slots.map (Option.map (redefine key enumerable))
      created := object.created.map (redefine key enumerable) }
  else
    { object with
      slots := object.slots ++ [some ⟨key, enumerable⟩]
      created := object.created ++ [⟨key, enumerable⟩] }

/-- A change of the object. Defining the `length` of an array leaves the shape alone, but
`object_assign_copy_slot` does not know about it. -/
def step (event : KeyedEvent) (object : Keyed) : Keyed :=
  match event with
  | .define key enumerable =>
    if object.kind = .array ∧ key = .length then object else object.put key enumerable
  | .assign key => object.put key true
  | .delete key =>
    { object with
      slots := removeSlot key object.slots
      created := object.created.filter (·.key != key) }
  | .store dense => { object with dense }

/-- The indices that are not in the shape: those of the string, or of the dense buffer. -/
def exotic (object : Keyed) : List Nat :=
  match object.kind with
  | .ordinary => []
  | .array => (range object.dense.length).filter fun i => object.dense[i]? = some true
  | .string length => range length

/-- A String wrapper answers for this key itself. -/
def hides (object : Keyed) (key : Key) : Bool :=
  match object.kind, key with
  | .string _, .length => true
  | .string length, .index i => i < length
  | _, _ => false

/-- The properties of a list that are listed: all, or the enumerable ones. -/
def listed (enumerableOnly : Bool) (slots : List ShapeSlot) : List Key :=
  (slots.filter fun slot => !enumerableOnly || slot.enumerable).map (·.key)

/-- The string keys among the properties. -/
def strings (object : Keyed) (enumerableOnly : Bool) (slots : List ShapeSlot) : List Key :=
  (listed enumerableOnly slots).filter fun key => !key.isSymbol && !object.hides key

/-- The indices among the properties, as they were created. -/
def indices (object : Keyed) (enumerableOnly : Bool) (slots : List ShapeSlot) : List Nat :=
  (object.strings enumerableOnly slots).filterMap Key.toIndex

/-- The other strings among the properties, as they were created. -/
def names (object : Keyed) (enumerableOnly : Bool) (slots : List ShapeSlot) : List Key :=
  (object.strings enumerableOnly slots).filter fun key => key.toIndex = none

/-- The symbols among the properties, as they were created. -/
def symbols (includeSymbols enumerableOnly : Bool) (slots : List ShapeSlot) : List Key :=
  if includeSymbols then (listed enumerableOnly slots).filter Key.isSymbol else []

/-- `length`, unless only enumerable keys are listed. -/
def lengthKey (enumerableOnly : Bool) : List Key :=
  if enumerableOnly then [] else [.length]

/-- The insertion sort of the index keys that the buffer does not shadow. -/
def sortedIndices (object : Keyed) (found : List Nat) : List Nat :=
  (found.filter (· ∉ object.exotic)).foldl (fun sorted i => sorted.orderedInsert (· ≤ ·) i) []

/-- `js_own_property_keys`. If an object other than an array has an index key in its shape, then
the list is started anew, without what the String wrapper has put into it. -/
def ownPropertyKeys (object : Keyed) (includeSymbols enumerableOnly : Bool) : List Key :=
  let slots := object.slots.reduceOption
  let found := object.indices enumerableOnly slots
  let symbols := symbols includeSymbols enumerableOnly slots
  let sorted := (object.sortedIndices found).map Key.index
  let names := object.names enumerableOnly slots
  match object.kind with
  | .ordinary =>
    if found = [] then object.strings enumerableOnly slots ++ symbols
    else sorted ++ names ++ symbols
  | .string length =>
    if found = [] then
      (range length).map Key.index ++ lengthKey enumerableOnly ++
        object.strings enumerableOnly slots ++ symbols
    else sorted ++ names ++ symbols
  | .array => object.exotic.map Key.index ++ sorted ++ lengthKey enumerableOnly ++ names ++ symbols

/-- `length` where the object has one of its own, as listed. A slot of the shape says whether it
is enumerable. -/
def ownLength (object : Keyed) (enumerableOnly : Bool) : List Key :=
  if object.kind = .ordinary ∨ enumerableOnly ∧ ⟨.length, true⟩ ∉ object.created then []
  else [.length]

/-- The strings that are no indices and no such `length`. -/
def ownNames (object : Keyed) (enumerableOnly : Bool) : List Key :=
  (object.names enumerableOnly object.created).filter fun key =>
    object.kind = .ordinary ∨ key ≠ .length

/-- The right list: the indices of the object in ascending order, `length` where the object has
one of its own, the other strings and the symbols as they were created. An index of the string or
the buffer is enumerable unless a slot of the shape says that it is not. -/
def ListsOwnKeys (object : Keyed) (includeSymbols enumerableOnly : Bool) (keys : List Key) : Prop :=
  ∃ ascending : List Nat, ascending.Pairwise (· < ·) ∧ (∀ i, i ∈ ascending ↔
      i ∈ object.exotic ∧ ¬(enumerableOnly ∧ ⟨.index i, false⟩ ∈ object.created) ∨
        i ∈ object.indices enumerableOnly object.created) ∧
    keys = ascending.map Key.index ++ (object.ownLength enumerableOnly ++
      object.ownNames enumerableOnly ++ symbols includeSymbols enumerableOnly object.created)

/-- The homes of the keys are in order. -/
structure HomesInOrder (object : Keyed) : Prop where
  /-- The shape of a String wrapper has no index beyond the string. -/
  wrapper : (∃ length, object.kind = .string length) → object.indices false object.created = []
  /-- No index in the shape of an array comes before an element of the buffer. -/
  behind : ∀ i ∈ object.indices false object.created, i ∈ object.exotic ∨ ∀ j ∈ object.exotic, j < i
  /-- The `length` of an array is not in its shape, and that of a String wrapper is not enumerable
  there. -/
  length : object.kind ≠ .ordinary → ∀ slot ∈ object.created, slot.key = .length →
    object.kind ≠ .array ∧ slot.enumerable = false
  /-- No index of the string or the buffer has a slot that is not enumerable. -/
  shown : ∀ i ∈ object.exotic, ⟨.index i, false⟩ ∉ object.created

/-- The slots hold the properties in the order of their creation, each key once. -/
structure InCreationOrder (object : Keyed) : Prop where
  slots : object.slots.reduceOption = object.created
  distinct : (object.created.map (·.key)).Nodup

variable {object : Keyed} {includeSymbols enumerableOnly : Bool} {keys : List Key}

theorem reduceOption_map_filter (keep : ShapeSlot → Bool) (slots : List (Option ShapeSlot)) :
    (slots.map (Option.filter keep)).reduceOption = slots.reduceOption.filter keep := by
  induction slots with
  | nil => rfl
  | cons slot slots ih =>
    rcases slot with _ | slot
    · simpa using ih
    · by_cases kept : keep slot <;> simp [Option.filter, kept, ih]

theorem reduceOption_rdropWhile (slots : List (Option ShapeSlot)) :
    (slots.rdropWhile Option.isNone).reduceOption = slots.reduceOption := by
  induction slots using reverseRecOn with
  | nil => rfl
  | append_singleton slots slot ih =>
    rcases slot with _ | slot
    · rw [rdropWhile_concat_pos _ _ _ rfl, ih, reduceOption_append]
      exact (append_nil _).symm
    · rw [rdropWhile_concat_neg _ _ _ (by simp)]

/-- Neither dropping tombstones nor compaction changes the order of what is left. -/
theorem reduceOption_removeSlot (key : Key) (slots : List (Option ShapeSlot)) :
    (removeSlot key slots).reduceOption = slots.reduceOption.filter (·.key != key) := by
  unfold removeSlot
  dsimp only
  split_ifs
  · have compacted : ∀ left : List ShapeSlot, (left.map some).reduceOption = left := by
      intro left
      simp [reduceOption]
    rw [compacted, reduceOption_rdropWhile, reduceOption_map_filter]
  · rw [reduceOption_rdropWhile, reduceOption_map_filter]

/-- A property that is put keeps the slots in the order of their creation. -/
theorem put_inCreationOrder (key : Key) (enumerable : Bool) (sound : InCreationOrder object) :
    InCreationOrder (object.put key enumerable) := by
  unfold put
  split_ifs with known
  · have sameKeys : ∀ slot, (redefine key enumerable slot).key = slot.key := by
      intro slot
      unfold redefine
      split_ifs <;> rfl
    refine ⟨?_, ?_⟩
    · rw [reduceOption_map, sound.slots]
    · simpa [Function.comp_def, sameKeys] using sound.distinct
  · rw [sound.slots] at known
    refine ⟨?_, ?_⟩
    · rw [reduceOption_append, sound.slots]
      rfl
    · rw [map_append, nodup_append]
      refine ⟨sound.distinct, nodup_singleton _, ?_⟩
      simpa using known

/-- Every event keeps the slots in the order of their creation. -/
theorem step_inCreationOrder (event : KeyedEvent) (sound : InCreationOrder object) :
    InCreationOrder (step event object) := by
  cases event with
  | define key enumerable =>
    simp only [step]
    split_ifs
    · exact sound
    · exact put_inCreationOrder key enumerable sound
  | assign key => exact put_inCreationOrder key true sound
  | delete key =>
    refine ⟨?_, ?_⟩
    · rw [step, reduceOption_removeSlot, sound.slots]
    · exact sound.distinct.sublist (filter_sublist.map _)
  | store dense => exact ⟨sound.slots, sound.distinct⟩

theorem sortedIndices_eq (found : List Nat) :
    object.sortedIndices found = (found.filter (· ∉ object.exotic)).reverse.insertionSort (· ≤ ·) :=
  foldr_reverse.symm

theorem mem_sortedIndices {found : List Nat} :
    i ∈ object.sortedIndices found ↔ i ∈ found ∧ i ∉ object.exotic := by
  simp [sortedIndices_eq]

/-- The indices that are sorted stand in ascending order. -/
theorem sortedIndices_pairwise {found : List Nat} (distinct : found.Nodup) :
    (object.sortedIndices found).Pairwise (· < ·) := by
  rw [sortedIndices_eq]
  have once : ((found.filter (· ∉ object.exotic)).reverse.insertionSort (· ≤ ·)).Nodup :=
    (perm_insertionSort _ _).nodup_iff.mpr (nodup_reverse.mpr (distinct.filter _))
  have sorted := pairwise_insertionSort (· ≤ ·) (found.filter (· ∉ object.exotic)).reverse
  exact (sorted.and once).imp fun both => lt_of_le_of_ne both.1 both.2

/-- Exotic indices stand in ascending order. -/
theorem exotic_pairwise (object : Keyed) : object.exotic.Pairwise (· < ·) := by
  unfold exotic
  split
  · exact List.Pairwise.nil
  · exact pairwise_lt_range.filter _
  · exact pairwise_lt_range

/-- No index is listed twice. -/
theorem indices_nodup (sound : InCreationOrder object) :
    (object.indices enumerableOnly object.created).Nodup := by
  refine List.Nodup.filterMap ?_ ((sound.distinct.sublist (filter_sublist.map _)).filter _)
  intro first second i isFirst isSecond
  cases first <;> cases second <;> simp_all [Key.toIndex]

/-- Every enumerable index is an index. -/
theorem indices_subset (object : Keyed) (enumerableOnly : Bool) :
    object.indices enumerableOnly object.created ⊆ object.indices false object.created := by
  have all : ∀ slots, listed enumerableOnly slots ⊆ listed false slots := by
    intro slots
    exact map_subset _ (by simp)
  exact filterMap_subset _ (filter_subset _ (all _))

/-- Without an index among them, the strings are the names. -/
theorem strings_eq_names
    {slots : List ShapeSlot} (noIndex : object.indices enumerableOnly slots = []) :
    object.strings enumerableOnly slots = object.names enumerableOnly slots := by
  refine (filter_eq_self.mpr fun key isString => ?_).symm
  simpa using filterMap_eq_nil_iff.mp noIndex key isString

/-- A list is the indices first and then other keys in only one way. -/
theorem split_indices {first second : List Nat} {rest others : List Key}
    (restNot : ∀ key ∈ rest, key.toIndex = none) (othersNot : ∀ key ∈ others, key.toIndex = none)
    (same : first.map Key.index ++ rest = second.map Key.index ++ others) :
    first = second ∧ rest = others := by
  have indicesOf : ∀ (indices : List Nat) (keys : List Key), (∀ key ∈ keys, key.toIndex = none) →
      (indices.map Key.index ++ keys).filterMap Key.toIndex = indices := by
    intro indices keys notIndex
    rw [filterMap_append, filterMap_eq_nil_iff.mpr notIndex, append_nil, filterMap_map]
    exact filterMap_some
  have isSecond : first = second := by
    rw [← indicesOf first rest restNot, same, indicesOf second others othersNot]
  subst isSecond
  exact ⟨rfl, append_cancel_left same⟩

/-- Names are not indices. -/
theorem toIndex_of_mem_names
    {slots : List ShapeSlot} {key : Key} (isName : key ∈ object.names enumerableOnly slots) :
    key.toIndex = none := by
  simpa using of_mem_filter isName

/-- The key `length` is not an index. -/
theorem toIndex_of_mem_lengthKey {key : Key} (isLength : key ∈ lengthKey enumerableOnly) :
    key.toIndex = none := by
  unfold lengthKey at isLength
  split_ifs at isLength
  · cases isLength
  · rw [mem_singleton.mp isLength]
    rfl

/-- Symbols are not indices. -/
theorem toIndex_of_mem_symbols
    {slots : List ShapeSlot} {key : Key}
    (isSymbol : key ∈ symbols includeSymbols enumerableOnly slots) :
    key.toIndex = none := by
  unfold symbols at isSymbol
  split_ifs at isSymbol
  · have found := of_mem_filter isSymbol
    cases key <;> first | rfl | cases found
  · cases isSymbol

theorem toIndex_of_mem_ownLength {key : Key} (isLength : key ∈ object.ownLength enumerableOnly) :
    key.toIndex = none := by
  unfold ownLength at isLength
  split_ifs at isLength
  · cases isLength
  · rw [mem_singleton.mp isLength]
    rfl

/-- Every slot is listed as a name if its key is neither an index nor hidden. -/
theorem length_mem_names {slot : ShapeSlot} (isSlot : slot ∈ object.created)
    (isLength : slot.key = .length) (isArray : object.kind = .array) :
    .length ∈ object.names false object.created := by
  refine mem_filter.mpr ⟨mem_filter.mpr ⟨?_, ?_⟩, ?_⟩
  · rw [← isLength]
    exact mem_map_of_mem (mem_filter.mpr ⟨isSlot, rfl⟩)
  · simp [Key.isSymbol, hides, isArray]
  · rfl

/-- Under the condition the shape has no other `length` to list. -/
theorem HomesInOrder.ownNames_eq (inOrder : object.HomesInOrder) :
    object.ownNames enumerableOnly = object.names enumerableOnly object.created := by
  refine filter_eq_self.mpr fun key isName => ?_
  rw [decide_eq_true_iff]
  by_contra hidden
  obtain ⟨notOrdinary, isLength⟩ := not_or.mp hidden
  rw [not_not] at isLength
  subst isLength
  obtain ⟨isListed, notHidden⟩ := mem_filter.mp (mem_of_mem_filter isName)
  obtain ⟨slot, isSlot, isKey⟩ := mem_map.mp isListed
  obtain ⟨notArray, -⟩ := inOrder.length notOrdinary slot (mem_of_mem_filter isSlot) isKey
  cases isKind : object.kind with
  | ordinary => exact notOrdinary isKind
  | array => exact notArray isKind
  | string length => simp [hides, isKind] at notHidden

/-- In order, `length` is listed for arrays and strings only. -/
theorem HomesInOrder.ownLength_eq (inOrder : object.HomesInOrder) :
    object.ownLength enumerableOnly =
      if object.kind = .ordinary then [] else lengthKey enumerableOnly := by
  by_cases isOrdinary : object.kind = .ordinary
  · simp [ownLength, isOrdinary]
  · have noSlot : (⟨.length, true⟩ : ShapeSlot) ∉ object.created := by
      intro isSlot
      cases (inOrder.length isOrdinary _ isSlot rfl).2
    cases enumerableOnly <;> simp [ownLength, lengthKey, isOrdinary, noSlot]

section

variable (sound : InCreationOrder object)
include sound

/-- The keys of an object that is no String wrapper, or has no index in its shape. -/
theorem ownPropertyKeys_eq
    (plain : (∃ length, object.kind = .string length) →
      object.indices enumerableOnly object.created = []) :
    object.ownPropertyKeys includeSymbols enumerableOnly =
      (object.exotic ++
        object.sortedIndices (object.indices enumerableOnly object.created)).map Key.index ++
      ((if object.kind = .ordinary then [] else lengthKey enumerableOnly) ++
        object.names enumerableOnly object.created ++
        symbols includeSymbols enumerableOnly object.created) := by
  have sortedNil : object.sortedIndices [] = [] := rfl
  unfold ownPropertyKeys
  rw [sound.slots]
  dsimp only
  cases isKind : object.kind with
  | ordinary =>
    have noExotic : object.exotic = [] := by simp [exotic, isKind]
    by_cases noIndex : object.indices enumerableOnly object.created = []
    · simp [noIndex, noExotic, sortedNil, strings_eq_names noIndex]
    · simp [noIndex, noExotic]
  | array => simp
  | string length =>
    have noIndex := plain ⟨length, isKind⟩
    have isExotic : object.exotic = range length := by simp [exotic, isKind]
    simp [noIndex, isExotic, sortedNil, strings_eq_names noIndex]

/-- A right list has the indices and the other keys of the one that is made. -/
theorem ListsOwnKeys.split
    (plain : (∃ length, object.kind = .string length) →
      object.indices enumerableOnly object.created = [])
    (lists : object.ListsOwnKeys false enumerableOnly
      (object.ownPropertyKeys false enumerableOnly)) :
    (object.exotic ++ object.sortedIndices (object.indices enumerableOnly object.created)).Pairwise
        (· < ·) ∧
      (∀ i ∈ object.exotic, ¬(enumerableOnly ∧ ⟨.index i, false⟩ ∈ object.created) ∨
        i ∈ object.indices enumerableOnly object.created) ∧
      (if object.kind = .ordinary then [] else lengthKey enumerableOnly) ++
          object.names enumerableOnly object.created =
        object.ownLength enumerableOnly ++ object.ownNames enumerableOnly := by
  obtain ⟨ascending, sorted, members, isList⟩ := lists
  rw [ownPropertyKeys_eq sound plain] at isList
  have madeRest : ∀ key ∈ (if object.kind = .ordinary then [] else lengthKey enumerableOnly) ++
      object.names enumerableOnly object.created ++ symbols false enumerableOnly object.created,
        key.toIndex = none := by
    simp only [forall_mem_append]
    refine ⟨⟨fun key isLength => ?_, fun key => toIndex_of_mem_names⟩,
      fun key => toIndex_of_mem_symbols⟩
    split_ifs at isLength
    · cases isLength
    · exact toIndex_of_mem_lengthKey isLength
  have rightRest : ∀ key ∈ object.ownLength enumerableOnly ++ object.ownNames enumerableOnly ++
      symbols false enumerableOnly object.created, key.toIndex = none := by
    simp only [forall_mem_append]
    exact ⟨⟨fun key => toIndex_of_mem_ownLength,
      fun key isName => toIndex_of_mem_names (mem_of_mem_filter isName)⟩,
      fun key => toIndex_of_mem_symbols⟩
  obtain ⟨rfl, sameRest⟩ := split_indices madeRest rightRest isList
  refine ⟨sorted, fun i isExotic => ?_, append_cancel_right sameRest⟩
  exact ((members i).mp (mem_append_left _ isExotic)).imp_left And.right

/-- An index that is listed as enumerable has no slot that is not. -/
theorem enumerable_of_mem_indices (isIndex : i ∈ object.indices true object.created) :
    ⟨.index i, false⟩ ∉ object.created := by
  intro isSlot
  obtain ⟨key, isString, isKey⟩ := mem_filterMap.mp isIndex
  obtain ⟨slot, isListed, rfl⟩ := mem_map.mp (mem_of_mem_filter isString)
  obtain ⟨isCreated, enumerable⟩ := mem_filter.mp isListed
  have sameKey : slot.key = .index i := by
    cases keyEq : slot.key with
    | index j =>
      rw [keyEq] at isKey
      rw [Option.some.inj isKey]
    | _ =>
      rw [keyEq] at isKey
      cases isKey
  have same := inj_on_of_nodup_map sound.distinct isCreated isSlot sameKey
  rw [same] at enumerable
  cases enumerable

/-- The keys are listed right exactly if the homes of the keys are in order. -/
theorem listsOwnKeys_iff_homesInOrder :
    (∀ includeSymbols enumerableOnly, object.ListsOwnKeys includeSymbols enumerableOnly
      (object.ownPropertyKeys includeSymbols enumerableOnly)) ↔ object.HomesInOrder := by
  constructor
  · intro lists
    have plain : (∃ length, object.kind = .string length) →
        object.indices false object.created = [] := by
      rintro ⟨length, isString⟩
      obtain ⟨ascending, sorted, members, isList⟩ := lists false false
      by_contra found
      have listed : Key.length ∈ object.ownPropertyKeys false false := by
        simp [isList, isString, ownLength]
      -- an index in the shape hides the `length`
      rw [ownPropertyKeys, sound.slots] at listed
      simp [isString, found, symbols, names, strings, hides] at listed
    have plainListed : (∃ length, object.kind = .string length) →
        object.indices true object.created = [] := by
      intro isString
      exact subset_nil.mp (plain isString ▸ object.indices_subset true)
    obtain ⟨sorted, -, allNames⟩ := ListsOwnKeys.split sound plain (lists false false)
    obtain ⟨-, shown, listedNames⟩ := ListsOwnKeys.split sound plainListed (lists false true)
    refine ⟨plain, fun i found => ?_, fun notOrdinary slot isSlot isLength => ?_,
      fun i isExotic isSlot => ?_⟩
    · by_cases isExotic : i ∈ object.exotic
      · exact Or.inl isExotic
      · exact Or.inr fun j isBefore => (pairwise_append.mp sorted).2.2 j isBefore i
          (mem_sortedIndices.mpr ⟨found, isExotic⟩)
    · cases isKind : object.kind with
      | ordinary => exact absurd isKind notOrdinary
      | array =>
        have isName := length_mem_names isSlot isLength isKind
        have isOwn : Key.length ∈ object.ownNames false := by
          have same : object.names false object.created = object.ownNames false := by
            simpa [ownLength, lengthKey, isKind] using allNames
          rwa [← same]
        simp [ownNames, isKind] at isOwn
      | string length =>
        refine ⟨nofun, Bool.eq_false_iff.mpr fun enumerable => ?_⟩
        have isEnumerable : (⟨.length, true⟩ : ShapeSlot) ∈ object.created := by
          rw [← isLength, ← enumerable]
          exact isSlot
        have isName : Key.length ∈ object.names true object.created := by
          have same : object.names true object.created = .length :: object.ownNames true := by
            simpa [ownLength, lengthKey, isKind, isEnumerable] using listedNames
          rw [same]
          exact mem_cons_self
        simp [names, strings, hides, isKind] at isName
    · rcases shown i isExotic with notSlot | isIndex
      · exact notSlot ⟨rfl, isSlot⟩
      · exact enumerable_of_mem_indices sound isIndex isSlot
  · intro inOrder includeSymbols enumerableOnly
    have plainListed : (∃ length, object.kind = .string length) →
        object.indices enumerableOnly object.created = [] := by
      intro isString
      exact subset_nil.mp (inOrder.wrapper isString ▸ object.indices_subset enumerableOnly)
    have made := @ownPropertyKeys_eq object includeSymbols enumerableOnly sound plainListed
    rw [← inOrder.ownLength_eq, ← inOrder.ownNames_eq] at made
    refine ⟨_, ?_, ?_, made⟩
    · refine pairwise_append.mpr
        ⟨object.exotic_pairwise, sortedIndices_pairwise (indices_nodup sound), ?_⟩
      intro j isExotic i isSorted
      obtain ⟨found, notExotic⟩ := mem_sortedIndices.mp isSorted
      have home := inOrder.behind i (object.indices_subset enumerableOnly found)
      exact home.resolve_left notExotic j isExotic
    · intro i
      rw [mem_append, mem_sortedIndices]
      have isShown := inOrder.shown i
      tauto

end

/-- An object without properties. -/
def fresh (kind : KeyedKind) : Keyed :=
  ⟨kind, [], [], []⟩

/-- Every run keeps the slots in the order of their creation. -/
theorem run_inCreationOrder (sound : InCreationOrder object) (events : List KeyedEvent) :
    InCreationOrder (Machine.run step events object) := by
  induction events generalizing object with
  | nil => exact sound
  | cons event events ih => exact ih (step_inCreationOrder event sound)

end Keyed

end AntRuntime.Objects
