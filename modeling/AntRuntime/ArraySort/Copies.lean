import AntRuntime.ArraySort.Elementwise

/-!
# The copy that `toSorted` sorts

A buffer is copied slot by slot, with undefineds beyond its end. Elements of the
shape are copied to the shape of the new array, which has an empty buffer.
-/

namespace AntRuntime.ArraySort

open Objects Arrays Sorting List

section Copies

variable {object : Object} {slots : List (Option Value)} {source result : Object} {count : Nat}

/-- A new array that holds the first slots of a source. -/
structure CopiedTo (source : Object) (count : Nat) (result : Object) : Prop where
  isArray : result.isArray = true
  dense : result.denseBuf = true
  len_eq : result.len = count
  cap_le : result.cap ≤ uint32Max
  room : count ≤ result.cap
  noProps : ∀ i, result.props (.index i) = none
  slot_eq : ∀ i, slot result i = if i < count then source.denseGet i else none

/-- One slot is appended. -/
theorem CopiedTo.step (copied : CopiedTo source count result) (fits : count + 1 ≤ uint32Max) :
    CopiedTo source (count + 1)
      ((result.arrSetDense count (source.denseGet count)).getD result) := by
  have length_eq : result.getArrayLength = count := by
    simp [Object.getArrayLength, copied.isArray, copied.len_eq]
  have iterable : result.denseIterableLength = count := by
    have room := copied.room
    simp [Object.denseIterableLength, copied.dense, length_eq, room]
  have near : count < result.densityLimit := by
    unfold Object.densityLimit
    simp only
    split_ifs <;> omega
  obtain ⟨data, cap, fastArray, grownEq, inside, capLe, slots, stillDense⟩ :=
    exists_room copied.dense copied.cap_le fits
  have result_eq : result.arrSetDense count (source.denseGet count) = some
        { result with
          data := Function.update data count (source.denseGet count)
          cap
          fastArray
          len := count + 1 } := by
    simp only [Object.arrSetDense, copied.dense, if_true, iterable]
    rw [if_neg (by omega), if_neg (by omega), grownEq, Option.map_some, Nat.sub_self,
      Object.emptyUndefined, denseSet_eq stillDense inside, length_eq,
      if_pos le_rfl, Object.arrayLenSet, if_pos copied.isArray,
      show min (count + 1) uint32Max = count + 1 by omega]
  rw [result_eq]
  refine ⟨copied.isArray, stillDense, rfl, capLe, inside, copied.noProps, fun i => ?_⟩
  refine (congrFun (slot_update_data stillDense inside (source.denseGet count)) i).trans ?_
  by_cases here : i = count
  · subst here
    rw [Function.update_self, if_pos (by omega)]
  · rw [Function.update_of_ne here, slots, copied.slot_eq]
    by_cases below : i < count
    · rw [if_pos below, if_pos (by omega)]
    · rw [if_neg below, if_neg (by omega)]

/-- The whole copy. -/
theorem CopiedTo.shallowCopyDense (count : Nat) (copied : CopiedTo source start result)
    (fits : start + count ≤ uint32Max) :
    CopiedTo source (start + count) (World.shallowCopyDense source start count result) := by
  induction count generalizing start result with
  | zero => exact copied
  | succ count ih =>
    have next := ih (copied.step (by omega)) (by omega)
    rw [show start + (count + 1) = start + 1 + count by omega]
    exact next

theorem CopiedTo.view (copied : CopiedTo source count result) :
    view result = ecmaLiteral ((range count).map source.denseGet) := by
  refine view_eq_literal_iff.mpr ⟨?_, fun i => ?_⟩
  · rw [length_map, length_range, copied.len_eq]
  · rw [element, copied.slot_eq, copied.noProps, getElem?_map]
    by_cases below : i < count
    · rw [if_pos below, getElem?_range below]
      cases isGot : source.denseGet i <;> simp [isGot]
    · rw [if_neg below, getElem?_eq_none (by rw [length_range]; omega)]
      rfl

theorem getD_denseGet (dense : object.denseBuf = true) (i : Nat) :
    (object.denseGet i).getD .undefined = (slot object i).getD .undefined := by
  by_cases inside : i < object.cap
  · rw [denseGet_eq dense inside]
  · simp [Object.denseGet, slot, inside]

/-- The values that are sorted in the copy of a buffer. -/
theorem CopiedTo.heldValues
    (dense : source.denseBuf = true) (copied : CopiedTo source count result) :
    heldValues result = (range count).map fun i => (slot source i).getD .undefined := by
  rw [ArraySort.heldValues, copied.len_eq, Nat.min_eq_right copied.room]
  refine map_congr_left fun i isIn => ?_
  rw [copied.slot_eq, if_pos (mem_range.mp isIn), getD_denseGet dense]

theorem copiedTo_empty (source : Object) : CopiedTo source 0 (Object.literal []) where
  isArray := rfl
  dense := by decide
  len_eq := rfl
  cap_le := by decide
  room := Nat.zero_le _
  noProps := fun _ => rfl
  slot_eq := by
    intro i
    rw [slot_literal, if_neg (Nat.not_lt_zero i)]
    rfl

/-- The copy of an array without a buffer: its elements are in the shape. -/
theorem view_arrayShallowCopy (inShape : InShape object) (isView : view object = ecmaLiteral slots)
    (fits : slots.length ≤ uint32Max) :
    let copy := World.arrayShallowCopy object slots.length
    copy.isArray = true ∧ copy.denseBuf = true ∧ copy.cap = maxDenseInitialCap ∧
      copy.len = slots.length ∧ (∀ i, slot copy i = none) ∧
      view copy = ecmaLiteral slots := by
  have copy_eq : World.arrayShallowCopy object slots.length = { Object.literal [] with
        props := fun key =>
          if World.digitKey key then
            (object.props key).map fun property => .plain property.value
          else none
        len := slots.length } := by
    unfold World.arrayShallowCopy
    simp only [inShape.sparse, Bool.false_eq_true, if_false]
    rw [arrayLenSet_eq (by rfl), Nat.min_eq_left fits]
  rw [copy_eq]
  intro copy
  have noSlot : ∀ i, slot copy i = none := by
    intro i
    have isEmpty := @slot_literal [] i
    exact isEmpty
  have props_eq : ∀ i, copy.props (.index i) = slots[i]?.join.map .plain := by
    intro i
    simp only [copy, props_of_view inShape.sparse isView]
    cases slots[i]?.join <;> rfl
  refine ⟨rfl, (copiedTo_empty object).dense, rfl, rfl, noSlot, ?_⟩
  refine view_eq_literal_iff.mpr ⟨rfl, fun i => ?_⟩
  rw [element, noSlot, props_eq]
  cases slots[i]?.join <;> rfl

end Copies

end AntRuntime.ArraySort
