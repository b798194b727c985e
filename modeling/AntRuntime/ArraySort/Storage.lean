import AntRuntime.ArraySort.Arrangements

/-!
# What a sort reads and writes

An array with a buffer is sorted in the buffer, and only there. Otherwise the
elements are properties of the shape, and are read, stored and deleted one by
one.
-/

namespace AntRuntime.ArraySort

open Objects Arrays Sorting List

variable {τ : Type}

section Literals

variable {object : Object} {slots : List (Option Value)}

theorem plain_injective : Function.Injective EcmaProperty.plain := by
  intro a b same
  injection same

theorem join_getElem?_injective {xs ys : List (Option Value)} (length_eq : xs.length = ys.length)
    (same : ∀ i : Nat, xs[i]?.join = ys[i]?.join) : xs = ys := by
  refine ext_getElem length_eq fun i xBound yBound => ?_
  have here := same i
  rwa [getElem?_eq_getElem xBound, getElem?_eq_getElem yBound] at here

theorem ecmaLiteral_injective : Function.Injective ecmaLiteral := by
  intro xs ys same
  obtain ⟨length_eq, _, props_eq⟩ := EcmaArray.mk.inj same
  refine join_getElem?_injective length_eq fun i => ?_
  exact Option.map_injective plain_injective (congrFun props_eq i)

/-- An array is that of a literal if its length and its elements are. -/
theorem view_eq_literal_iff :
    view object = ecmaLiteral slots ↔
      object.len = slots.length ∧
        ∀ i, element object i = slots[i]?.join.map .plain := by
  constructor
  · intro isView
    obtain ⟨length_eq, _, props_eq⟩ := EcmaArray.mk.inj isView
    exact ⟨length_eq, congrFun props_eq⟩
  · rintro ⟨length_eq, elements⟩
    simp only [view, ecmaLiteral, length_eq, funext elements]

theorem arranged_iff {order : Order τ} {hole : Option Value} {result : List (Option Value)}
    (isView : view object = ecmaLiteral result) :
    Arranged order slots hole object ↔ order.Arranges slots hole result := by
  constructor
  · rintro ⟨other, arranges, otherView⟩
    rwa [ecmaLiteral_injective (isView.symm.trans otherView)]
  · intro arranges
    exact ⟨result, arranges, isView⟩

end Literals

section Dense

variable {object : Object} {slots : List (Option Value)}

/-- The elements of the buffer below the length, undefined for an empty slot. -/
def heldValues (object : Object) : List Value :=
  (range (min object.cap object.len)).map fun i =>
    (slot object i).getD .undefined

/-- The same as slots. -/
def heldSlots (object : Object) : List (Option Value) :=
  (heldValues object).map some

theorem length_heldValues (object : Object) :
    (heldValues object).length = min object.cap object.len := by
  rw [heldValues, length_map, length_range]

theorem getElem?_heldValues (inside : i < min object.cap object.len) :
    (heldValues object)[i]? = some ((slot object i).getD .undefined) := by
  rw [heldValues, getElem?_map, getElem?_range inside]
  rfl

section

variable (dense : object.denseBuf = true)
include dense

theorem setSlots_spec (start : Nat) (stored : List (Option Value)) :
    ∃ data, object.setSlots start stored = { object with data } ∧
      ∀ i, slot { object with data } i =
        if start ≤ i ∧ i < start + stored.length ∧ i < object.cap then
          stored[i - start]?.join
        else slot object i := by
  induction stored generalizing object start with
  | nil =>
    refine ⟨object.data, rfl, fun i => ?_⟩
    rw [if_neg (by simp only [length_nil]; omega)]
  | cons first stored ih =>
    rw [Object.setSlots]
    by_cases inside : start < object.cap
    · rw [denseSet_eq dense inside]
      have stillDense :
          ({ object with data := Function.update object.data start first } :
            Object).denseBuf = true := dense
      obtain ⟨data, stored_eq, slots_eq⟩ := ih stillDense (start + 1)
      refine ⟨data, stored_eq, fun i => ?_⟩
      refine (slots_eq i).trans ?_
      rw [slot_update_data dense inside, length_cons]
      by_cases here : i = start
      · subst here
        rw [if_neg (by omega), if_pos (by omega), Function.update_self, Nat.sub_self]
        rfl
      · rw [Function.update_of_ne here]
        by_cases within : start ≤ i ∧ i < start + (stored.length + 1) ∧ i < object.cap
        · obtain ⟨offset, rfl⟩ : ∃ offset, i = start + 1 + offset := ⟨i - start - 1, by omega⟩
          rw [if_pos (by simp only; omega), if_pos within, Nat.add_sub_cancel_left,
            show start + 1 + offset - start = offset + 1 by omega,
            getElem?_cons_succ]
        · rw [if_neg (by simp only; omega), if_neg within]
    · have unchanged : object.denseSet start first = object := by simp [Object.denseSet, inside]
      rw [unchanged]
      obtain ⟨data, stored_eq, slots_eq⟩ := ih dense (start + 1)
      refine ⟨data, stored_eq, fun i => ?_⟩
      rw [slots_eq, if_neg (by omega), if_neg (by omega)]

/-- What is read: beyond the buffer, undefineds. -/
theorem denseRead_eq :
    (range object.len).map (fun i => (object.denseGet i).getD .undefined) =
      heldValues object ++ replicate (object.len - object.cap) .undefined := by
  refine ext_getElem? fun i => ?_
  by_cases inside : i < min object.cap object.len
  · have below : i < object.len := by omega
    have inBuffer : i < object.cap := by omega
    rw [getElem?_append_left (by rwa [length_heldValues]),
      getElem?_heldValues inside, getElem?_map, getElem?_range below,
      Option.map_some, denseGet_eq dense inBuffer]
  · rw [getElem?_append_right (by rw [length_heldValues]; omega), length_heldValues, getElem?_map]
    by_cases below : i < object.len
    · rw [getElem?_range below, getElem?_replicate_of_lt (by omega)]
      have beyond : ¬ i < object.cap := by omega
      simp [Object.denseGet, beyond]
    · rw [getElem?_eq_none (by rw [length_range]; omega),
        getElem?_eq_none (by rw [length_replicate]; omega)]
      rfl

theorem sortDense_eq :
    World.sortDense object object.len =
      (definedValues (heldSlots object),
        (heldValues object).count .undefined + (object.len - object.cap)) := by
  unfold World.sortDense
  rw [denseRead_eq dense, heldSlots, definedValues_map_some]
  simp

/-- An array whose buffer was overwritten from the start. -/
theorem view_setSlots {stored : List (Option Value)} (isView : view object = ecmaLiteral slots)
    (length_eq : stored.length = object.len)
    (full : ∀ i, i < object.cap → i < object.len → stored[i]? ≠ some none) :
    view (object.setSlots 0 stored) =
      ecmaLiteral (stored.take object.cap ++ slots.drop object.cap) := by
  obtain ⟨len_eq, elements⟩ := view_eq_literal_iff.mp isView
  obtain ⟨data, stored_eq, slots_eq⟩ := setSlots_spec dense 0 stored
  rw [stored_eq]
  refine view_eq_literal_iff.mpr ⟨?_, fun i => ?_⟩
  · rw [length_append, length_take, length_drop]
    change object.len = _
    omega
  · have slot_eq := slots_eq i
    by_cases inside : i < min object.cap object.len
    · rw [if_pos (by omega)] at slot_eq
      rw [getElem?_append_left (by rw [length_take]; omega),
        getElem?_take_of_lt (by omega), element, slot_eq]
      cases isStored : stored[i]? with
      | none => exact absurd (getElem?_eq_none_iff.mp isStored) (by omega)
      | some stored =>
        cases stored with
        | none => exact absurd isStored (full i (by omega) (by omega))
        | some value => rfl
    · rw [if_neg (by omega)] at slot_eq
      have unchanged : element { object with data } i = element object i := by
        rw [element, slot_eq]
        rfl
      rw [unchanged, elements, getElem?_append_right (by rw [length_take]; omega),
        length_take, getElem?_drop]
      by_cases below : i < object.len
      · rw [show object.cap + (i - min object.cap stored.length) = i by omega]
      · rw [getElem?_eq_none (by omega), getElem?_eq_none (by omega)]

end

/-- A slot of the buffer is an element. -/
theorem getElem?_of_slot (isView : view object = ecmaLiteral slots) {value : Value}
    (isSlot : slot object i = some value) :
    slots[i]? = some (some value) := by
  obtain ⟨_, elements⟩ := view_eq_literal_iff.mp isView
  have isElement := elements i
  rw [element, isSlot] at isElement
  obtain ⟨found, isJoin, found_eq⟩ := Option.map_eq_some_iff.mp isElement.symm
  rw [plain_injective found_eq] at isJoin
  exact Option.join_eq_some_iff.mp isJoin

theorem slot_eq_some_of_getD {value : Value} (value_eq : (slot object i).getD .undefined = value)
    (isDefined : value ≠ .undefined) :
    slot object i = some value := by
  cases isSlot : slot object i with
  | none =>
    rw [isSlot] at value_eq
    exact absurd value_eq.symm isDefined
  | some held =>
    rw [isSlot] at value_eq
    exact congrArg some value_eq

theorem mem_definedValues_of_getD
    (isView : view object = ecmaLiteral slots) {value : Value}
    (value_eq : (slot object i).getD .undefined = value) (isDefined : value ≠ .undefined) :
    value ∈ definedValues slots :=
  mem_definedValues.mpr ⟨mem_of_getElem?
    (getElem?_of_slot isView (slot_eq_some_of_getD value_eq isDefined)), isDefined⟩

/-- The values of the buffer are elements of the array. -/
theorem mem_definedValues_of_held (isView : view object = ecmaLiteral slots) {value : Value}
    (isHeld : value ∈ definedValues (heldSlots object)) :
    value ∈ definedValues slots := by
  rw [heldSlots, definedValues_map_some, mem_filter, heldValues, mem_map] at isHeld
  obtain ⟨⟨i, _, value_eq⟩, isDefined⟩ := isHeld
  exact mem_definedValues_of_getD isView value_eq (of_decide_eq_true isDefined)

theorem count_heldSlots (object : Object) :
    (heldSlots object).count (some .undefined) = (heldValues object).count .undefined ∧
      (heldSlots object).count none = 0 := by
  refine ⟨count_map_of_injective _ some (Option.some_injective _) _, ?_⟩
  simp [heldSlots, count_eq_zero]

/-- The list that is written back, as far as it fits the buffer. -/
theorem take_writeback
    {sorted : List Value} (perm : sorted.Perm (definedValues (heldSlots object))) :
    let undefs := (heldValues object).count .undefined + (object.len - object.cap)
    sorted.length + undefs = object.len ∧
      ((sorted ++ replicate undefs Value.undefined).map some).take object.cap =
        arrangement (heldSlots object) none sorted := by
  intro undefs
  have lengths := perm.length_eq
  have total := count_add_length_filter (heldValues object)
  rw [heldSlots, definedValues_map_some] at lengths
  rw [length_heldValues] at total
  refine ⟨by omega, ?_⟩
  obtain ⟨undefineds, noHoles⟩ := count_heldSlots object
  have written_eq : (sorted ++ replicate undefs Value.undefined).map some =
      arrangement (heldSlots object) none sorted ++
        replicate (object.len - object.cap) (some .undefined) := by
    rw [arrangement, undefineds, noHoles, map_append, replicate_add]
    simp
  have length_eq : (arrangement (heldSlots object) none sorted).length =
      min object.cap object.len := by
    rw [arrangement]
    simp only [length_append, length_map, length_replicate]
    omega
  rw [written_eq, take_append, take_of_length_le (by omega), length_eq,
    take_replicate, show min (object.cap - min object.cap object.len)
      (object.len - object.cap) = 0 by omega]
  simp

/-- A sort in the buffer. -/
theorem sort_dense
    (order : Order τ) (isArray : object.isArray = true) (dense : object.denseBuf = true)
    (isView : view object = ecmaLiteral slots) (outside : τ × Option Nat) (strict : Bool) :
    let sorted := mergeSort order.before (definedValues (heldSlots object)) ⟨object, outside⟩
    ∃ after, World.sort order.environment ⟨object, outside⟩ order.argument strict =
        (.receiver, ⟨after, sorted.2.outside⟩) ∧
      view after = ecmaLiteral
        (arrangement (heldSlots object) none sorted.1 ++ slots.drop object.cap) := by
  intro sorted
  have length_eq : object.getArrayLength = object.len := by simp [Object.getArrayLength, isArray]
  have sortedObject : sorted.2.object = object := mergeSort_object _ _ _
  have perm : sorted.1.Perm (definedValues (heldSlots object)) := mergeSort_perm _ _ _
  obtain ⟨total, take_eq⟩ := take_writeback perm
  refine ⟨object.setSlots 0 ((sorted.1 ++ replicate ((heldValues object).count .undefined +
      (object.len - object.cap)) Value.undefined).map some), ?_, ?_⟩
  · unfold World.sort
    simp only [length_eq, dense, sortDense_eq dense, sortedValues_eq]
    by_cases isEmpty : object.len = 0
    · have noValues : definedValues (heldSlots object) = [] := by
        rw [heldSlots, heldValues, isEmpty, Nat.min_zero]
        rfl
      have sorted_eq : sorted = ([], ⟨object, outside⟩) := by
        rw [show sorted = mergeSort order.before (definedValues (heldSlots object))
          ⟨object, outside⟩ from rfl, noValues]
        rfl
      rw [sorted_eq]
      simp [heldValues, isEmpty, Object.setSlots]
    · rw [if_neg isEmpty]
      simp only [World.sortWriteback, if_true, World.lift]
      rw [sortedObject, show object.len - (sorted.1 ++ replicate
        ((heldValues object).count .undefined + (object.len - object.cap))
          Value.undefined).length = 0 by
        rw [length_append, length_replicate]
        omega, replicate_zero, append_nil]
  · rw [← take_eq]
    refine view_setSlots dense isView ?_ ?_
    · simpa using total
    · intro i _ _ isEmpty
      have isIn := mem_of_getElem? isEmpty
      simp at isIn

end Dense

end AntRuntime.ArraySort
