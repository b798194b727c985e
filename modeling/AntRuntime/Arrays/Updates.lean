import AntRuntime.Arrays.Refinement

/-!
# Assignments, deletions and length changes

The view of an array after an assignment, a deletion or a change of its length
is the one the standard gives.
-/

namespace AntRuntime.Arrays

open Objects Function Option Object

variable {object : Object} {value : Value}

@[simp] theorem setOutput_returned : setOutput .returned = .done := rfl

@[simp] theorem setOutput_setter (f : Nat) : setOutput (.setter f) = .called f := rfl

/-- A refused assignment gives the output of a failure. -/
@[simp] theorem setOutput_failure (strict : Bool) (message : String) :
    setOutput (.failure strict message) = .failed strict := by
  cases strict <;> rfl

/-- An assignment that is not handled by the buffer acts on the shape. -/
theorem Sound.setpropOrdinary
    (sound : Sound object) (vacant : slot object i = none) (isIndex : i < uint32Max)
    (value : Value) (strict : Bool) :
    let result := object.setpropOrdinary (.index i) value strict none
    (view object).set i value strict = (setOutput result.1, view result.2) ∧ Sound result.2 := by
  have element_eq : element object i = (object.props (.index i)).map toEcma := by
    simp only [element, vacant]
  cases isProp : object.props (.index i) with
  | none =>
    have stored :
        object.setpropOrdinary (.index i) value strict none = (.returned,
            { object with
              props :=
                update object.props (.index i) (some (.plain value))
              len := max object.len (i + 1) }) := by
      simp only [Object.setpropOrdinary, isProp, Object.createNew,
        sound.checkObjectExtensibility, mkprop]
      rw [arrayDefineOrSetIndex_store sound.isArray isIndex]
      rfl
    obtain ⟨put_eq, putSound⟩ :=
      sound.putShape vacant isIndex (.plain value) (by simp [Property.plain, Property.isAccessor])
    rw [stored]
    refine ⟨?_, putSound⟩
    rw [put_eq]
    simp [EcmaArray.set, view, element_eq, isProp, EcmaArray.fixed]
    rfl
  | some property =>
    have accessor := sound.accessor i property isProp
    simp only [Object.setpropOrdinary, isProp, EcmaArray.set, view, element_eq]
    by_cases isAccessor : property.isAccessor = true
    · rcases property with ⟨old, writable, enumerable, configurable, getter, setter⟩
      rcases getter with _ | getter <;> rcases setter with _ | _ | setter <;>
        simp_all [toEcma, assignedBy]
    · obtain ⟨put_eq, putSound⟩ :=
        sound.putShape vacant isIndex { property with value } (by
          intro stillAccessor
          exact absurd stillAccessor isAccessor)
      rcases property with ⟨old, writable, enumerable, configurable, getter, setter⟩
      simp only [Property.isAccessor, Bool.or_eq_true, not_or,
        Bool.not_eq_true, isSome_eq_false_iff,
        isNone_iff_eq_none] at isAccessor
      obtain ⟨rfl, rfl⟩ := isAccessor
      cases writable with
      | false => simp [toEcma, Property.isAccessor, assignedBy, sound]
      | true =>
        simp only [Object.propStore, isProp]
        rw [arrayDefineOrSetIndex_store sound.isArray isIndex]
        exact ⟨Prod.ext rfl put_eq.symm, putSound⟩

theorem denseIterableLength_le_densityLimit (object : Object) :
    object.denseIterableLength ≤ object.densityLimit := by
  unfold densityLimit
  simp only
  split <;> omega

section

variable (sound : Sound object)
include sound

/-- Away from the buffer an assignment acts on the shape. -/
theorem Sound.setprop_far
    (far : object.denseBuf = true → object.densityLimit ≤ i) (value : Value) (strict : Bool) :
    object.setprop (.index i) value strict none =
      object.setpropOrdinary (.index i) value strict none := by
  have iterable := denseIterableLength_le_densityLimit object
  have notStored :
      (object.denseBuf && decide (i < object.denseIterableLength)) = false := by
    cases dense : object.denseBuf with
    | false => rfl
    | true =>
      have := far dense
      simp only [Bool.true_and, decide_eq_false_iff_not]
      omega
  have notNear : (object.denseBuf && decide (i < object.densityLimit)) = false := by
    cases dense : object.denseBuf with
    | false => rfl
    | true =>
      have := far dense
      simp only [Bool.true_and, decide_eq_false_iff_not]
      omega
  simp only [setprop, sound.isArray, setpropArrayFast, notStored,
    notNear, Bool.false_eq_true, if_false, sound.getArrayLength]
  by_cases below : i < object.len
  · rw [if_pos below]
  · rw [if_neg below]
    simp only [Object.setpropOrdinary, sound.props_eq_none (by omega : object.len ≤ i),
      Object.createNew, sound.checkObjectExtensibility]

/-- Assignments. -/
theorem Sound.set (isIndex : i < uint32Max)
    (replaceable : object.denseBuf = true → i < object.densityLimit →
      Replaceable object i)
    (value : Value) (strict : Bool) :
    let result := object.setprop (.index i) value strict none
    (view object).set i value strict = (setOutput result.1, view result.2) ∧ Sound result.2 := by
  have iterable := denseIterableLength_le_densityLimit object
  by_cases near : object.denseBuf = true ∧ i < object.densityLimit
  · obtain ⟨dense, near⟩ := near
    have plain := replaceable dense near
    have iterable_eq : object.denseIterableLength = min object.cap object.len := by
      simp [Object.denseIterableLength, dense, sound.getArrayLength]
    simp only [setprop, sound.isArray, setpropArrayFast,
      sound.unfrozen, sound.checkObjectExtensibility]
    rw [set_replaceable plain]
    by_cases stored : i < object.denseIterableLength
    · -- an element of the buffer is overwritten, or an empty slot is filled
      have inside : i < object.cap := by omega
      have same : max object.len (i + 1) = object.len := by omega
      obtain ⟨put_eq, putSound⟩ := sound.putDense dense inside plain isIndex value
      simp only [same] at put_eq putSound
      simp only [dense, stored, denseSet_eq dense inside]
      exact ⟨Prod.ext rfl put_eq.symm, putSound⟩
    · -- the buffer grows as far as the index
      obtain ⟨after, stored_eq, put_eq, putSound⟩ :=
        sound.arrSetDense dense near (by omega) isIndex plain value
      simp only [dense, stored, near, stored_eq]
      exact ⟨Prod.ext rfl put_eq.symm, putSound⟩
  · have far : object.denseBuf = true → object.densityLimit ≤ i := by
      intro dense
      by_contra below
      exact near ⟨dense, by omega⟩
    have vacant : slot object i = none := by
      cases dense : object.denseBuf with
      | false => exact slot_eq_none_of_not_denseBuf dense
      | true =>
        have iterable_eq :
            object.denseIterableLength = min object.cap object.len := by
          simp [Object.denseIterableLength, dense, sound.getArrayLength]
        have := far dense
        by_cases above : object.len ≤ i
        · exact sound.slot_eq_none above
        · exact slot_eq_none_of_cap_le (by omega)
    rw [sound.setprop_far far]
    exact sound.setpropOrdinary vacant isIndex value strict

/-- An element taken off both parts. -/
theorem Sound.remove {data : Nat → Option Value} {props : Key → Option Property}
    (slots : slot { object with data, props } = update (slot object) i none)
    (props_self : props (.index i) = none)
    (props_other : ∀ j, j ≠ i → props (.index j) = object.props (.index j)) :
    view { object with data, props } =
        { view object with props := update (element object) i none } ∧
      Sound { object with data, props } := by
  have emptied : slot { object with data, props } i = none := by rw [slots, update_self]
  obtain ⟨elements, removed⟩ : element { object with data, props } =
        update (element object) i (element { object with data, props } i) ∧
      Sound { object with data, props } :=
    sound.replaceAt (fun j other => (congrFun slots j).trans (update_of_ne other ..))
      props_other (Nat.le_refl _) sound.len_le
      (fun present => present.elim (absurd emptied) (absurd props_self))
      (fun _ _ isSlot _ => by cases emptied.symm.trans isSlot)
      (fun _ isProp => by cases props_self.symm.trans isProp)
  refine ⟨?_, removed⟩
  have isNone : element { object with data, props } i = none := by
    simp only [element, emptied, props_self, map_none]
  rw [isNone] at elements
  simp only [view, elements]

/-- The dense part of a deletion empties the slot. -/
theorem Sound.deleteDense (i : Nat) :
    ∃ data, object.deleteDense (.index i) = { object with data } ∧
      slot { object with data } = update (slot object) i none ∧
      (slot object i = none → data = object.data) := by
  have unchanged (vacant : slot object i = none) :
      slot object = update (slot object) i none := by
    rw [← vacant, update_eq_self]
  by_cases stored : object.denseBuf = true ∧ i < object.cap ∧ i < object.len
  · obtain ⟨dense, inside, below⟩ := stored
    refine ⟨update object.data i none, ?_, slot_update_data dense inside none, ?_⟩
    · simp [Object.deleteDense, Object.denseIterableLength, sound.isArray, dense,
        sound.getArrayLength, inside, below, denseSet_eq dense inside]
    · intro vacant
      rw [slot_eq_data dense inside] at vacant
      rw [← vacant, update_eq_self]
  · have vacant : slot object i = none := by
      cases isSlot : slot object i with
      | none => rfl
      | some value =>
        obtain ⟨dense, inside⟩ := inside_of_slot isSlot
        exact absurd ⟨dense, inside, sound.slot_lt i value isSlot⟩ stored
    refine ⟨object.data, ?_, unchanged vacant, fun _ => rfl⟩
    have skipped : ¬ (object.isArray && object.denseBuf && decide (i < object.getArrayLength) &&
        decide (i < object.denseIterableLength)) = true := by
      simp only [Bool.and_eq_true, decide_eq_true_eq, sound.getArrayLength]
      rintro ⟨⟨⟨_, dense⟩, below⟩, iterable⟩
      have : object.denseIterableLength ≤ object.cap := by simp [Object.denseIterableLength, dense]
      exact stored ⟨dense, by omega, below⟩
    rw [Object.deleteDense, if_neg skipped]

omit sound in
theorem toEcma_configurable (property : Property) :
    (toEcma property).configurable = property.configurable := by
  unfold toEcma
  split <;> rfl

section

variable (stored : ∀ property, object.props (.index i) = some property →
  property.configurable = true)
include stored
omit sound

theorem element_configurable
    {current : EcmaProperty} (isElement : element object i = some current) :
    current.configurable = true := by
  unfold element at isElement
  cases isSlot : slot object i with
  | some value =>
    rw [isSlot] at isElement
    cases isElement
    rfl
  | none =>
    rw [isSlot] at isElement
    obtain ⟨property, isProp, rfl⟩ := map_eq_some_iff.mp isElement
    rw [toEcma_configurable, stored property isProp]

theorem delete_of_configurable (strict : Bool) :
    (view object).delete i strict =
      (.bool true, { view object with props := update (element object) i none }) := by
  simp only [EcmaArray.delete, view]
  cases isElement : element object i with
  | some current => simp [element_configurable stored isElement]
  | none =>
    simp only
    rw [← isElement, update_eq_self]

end

/-- Deletions. -/
theorem Sound.delete (i : Nat) (strict : Bool) :
    let result := object.deleteProp (.index i) strict
    (view object).delete i strict = (deleteOutput result.1, view result.2) ∧ Sound result.2 := by
  obtain ⟨data, cleared_eq, slots, same⟩ := sound.deleteDense i
  unfold deleteProp
  rw [if_neg (by simp [sound.unfrozen]), if_neg (by simp [sound.unsealed]), if_neg (by simp),
    cleared_eq]
  simp only
  cases isProp : object.props (.index i) with
  | none =>
    obtain ⟨view_eq, removed⟩ :
        view { object with data } =
            { view object with props := update (element object) i none } ∧
          Sound { object with data } :=
      sound.remove slots isProp (fun _ _ => rfl)
    refine ⟨?_, removed⟩
    simp only [view_eq]
    exact delete_of_configurable
      (fun property isStored => by cases isProp.symm.trans isStored) strict
  | some property =>
    simp only
    cases configurable : property.configurable with
    | true =>
      have removedSlots :
          slot { object with
              data
              props := update object.props (.index i) none } =
            update (slot object) i none := slots
      obtain ⟨view_eq, removed⟩ :=
        sound.remove removedSlots (update_self ..)
          fun j other => props_update_of_ne other none
      refine ⟨?_, removed⟩
      simp only [if_true, view_eq]
      exact delete_of_configurable
        (fun stored isStored => by cases isProp.symm.trans isStored; exact configurable) strict
    | false =>
      have vacant : slot object i = none := by
        cases isSlot : slot object i with
        | none => rfl
        | some value =>
          have plain := sound.shadow i value property isSlot isProp
          simp [Property.isPlain, configurable] at plain
      rw [same vacant]
      refine ⟨?_, sound⟩
      have current : element object i = some (toEcma property) := by simp [element, vacant, isProp]
      simp only [EcmaArray.delete, view, current, toEcma_configurable, configurable]
      cases strict <;> rfl

end

/-- If nothing stands in the way, truncation deletes everything from the new
length on. -/
theorem truncate_eq {props : Nat → Option EcmaProperty}
    (deletable : ∀ j property, newLen ≤ j → j < newLen + count →
      props j = some property → property.configurable = true) :
    EcmaArray.truncate props newLen count =
      (newLen, fun j => if newLen ≤ j ∧ j < newLen + count then none else props j) := by
  induction count generalizing props with
  | zero =>
    have unchanged :
        (fun j => if newLen ≤ j ∧ j < newLen + 0 then none else props j) = props := by
      funext j
      rw [if_neg (by omega)]
    rw [unchanged]
    rfl
  | succ count ih =>
    have cleared (rest : Nat → Option EcmaProperty) (top : rest (newLen + count) = none)
        (same : ∀ j, j ≠ newLen + count → rest j = props j) :
        (fun j => if newLen ≤ j ∧ j < newLen + count then none else rest j) =
          fun j => if newLen ≤ j ∧ j < newLen + (count + 1) then none
            else props j := by
      funext j
      by_cases isTop : j = newLen + count
      · subst isTop
        rw [if_neg (by omega), if_pos (by omega), top]
      · rw [same j isTop]
        have range : (newLen ≤ j ∧ j < newLen + count) ↔
            (newLen ≤ j ∧ j < newLen + (count + 1)) := by omega
        simp only [range]
    cases isTop : props (newLen + count) with
    | none =>
      simp only [EcmaArray.truncate, isTop]
      rw [ih, cleared props isTop (fun _ _ => rfl)]
      intro j property above below isProp
      exact deletable j property above (by omega) isProp
    | some property =>
      have configurable := deletable (newLen + count) property (by omega) (by omega) isTop
      simp only [EcmaArray.truncate, isTop, configurable, if_true]
      rw [ih, cleared _ (update_self ..)]
      · intro j different
        exact update_of_ne different ..
      · intro j other above below isProp
        rw [update_of_ne (by omega)] at isProp
        exact deletable j other above (by omega) isProp

/-- If nothing stands in the way, the length becomes the new one. -/
theorem changeLength_of_deletable {array : EcmaArray} (writable : array.lengthWritable = true)
    (beyond : ∀ j, array.length ≤ j → array.props j = none)
    (deletable : ∀ j property, newLen ≤ j →
      array.props j = some property → property.configurable = true) :
    array.changeLength newLen =
      (true,
        { array with
          length := newLen
          props := fun j => if newLen ≤ j then none else array.props j }) := by
  have kept (longer : array.length ≤ newLen) :
      (fun j => if newLen ≤ j then none else array.props j) = array.props := by
    funext j
    by_cases above : newLen ≤ j
    · rw [if_pos above, beyond j (by omega)]
    · rw [if_neg above]
  unfold EcmaArray.changeLength
  by_cases same : newLen = array.length
  · rw [if_pos same, kept (by omega), same]
  · rw [if_neg same, if_neg (by simp [writable])]
    by_cases longer : array.length ≤ newLen
    · rw [if_pos longer, kept longer]
    · rw [if_neg longer, truncate_eq]
      · have cleared :
            (fun j => if newLen ≤ j ∧ j < newLen + (array.length - newLen) then none
              else array.props j) =
              fun j => if newLen ≤ j then none else array.props j := by
          funext j
          by_cases above : newLen ≤ j
          · rw [if_pos above]
            by_cases below : j < array.length
            · rw [if_pos ⟨above, by omega⟩]
            · rw [if_neg (by omega), beyond j (by omega)]
          · rw [if_neg (by omega), if_neg above]
        simp only [decide_true, cleared]
      · intro j property above _ isElement
        exact deletable j property above isElement

/-- Changes of the length. -/
theorem Sound.changeLength (sound : Sound object) (newLenLe : newLen ≤ uint32Max)
    (noneAbove : ∀ i, i < object.len → newLen ≤ i → object.props (.index i) = none) :
    (view object).changeLength newLen = (true, view (object.changeLength newLen)) ∧
      Sound (object.changeLength newLen) := by
  obtain ⟨data, after_eq⟩ : ∃ data, object.changeLength newLen =
      { object with data, len := newLen } :=
    ⟨_, (changeLength_eq sound.isArray newLen).trans (by rw [Nat.min_eq_left newLenLe])⟩
  have slots (j : Nat) : slot { object with data, len := newLen } j =
      if newLen ≤ j then none else slot object j := by
    rw [← after_eq, slot_changeLength sound.isArray]
    by_cases below : j < object.len
    · simp [below]
    · simp [sound.slot_eq_none (by omega : object.len ≤ j)]
  have missing : ∀ j, newLen ≤ j → object.props (.index j) = none := by
    intro j above
    by_cases below : j < object.len
    · exact noneAbove j below above
    · exact sound.props_eq_none (by omega)
  have elements : element { object with data, len := newLen } =
      fun j => if newLen ≤ j then none else element object j := by
    funext j
    by_cases above : newLen ≤ j
    · simp only [element, slots, if_pos above, missing j above, map_none]
    · simp only [element, slots, if_neg above]
  have beyond : ∀ j, object.len ≤ j → element object j = none := by
    intro j above
    simp only [element, sound.slot_eq_none above, sound.props_eq_none above, map_none]
  rw [after_eq]
  refine ⟨?_, { sound with len_le := newLenLe, slot_lt := ?_, prop_lt := ?_, shadow := ?_ }⟩
  · rw [changeLength_of_deletable rfl beyond]
    · simp only [view, elements]
    · intro j property above isElement
      exact element_configurable
        (fun stored isStored => by cases (missing j above).symm.trans isStored) isElement
  · intro j value isSlot
    rw [slots] at isSlot
    by_contra below
    rw [if_pos (by simp only at below; omega)] at isSlot
    cases isSlot
  · intro j property isProp
    by_contra below
    have none_eq := missing j (by simp only at below; omega)
    rw [show object.props (.index j) = some property from isProp] at none_eq
    cases none_eq
  · intro j value property isSlot isProp
    rw [slots] at isSlot
    by_cases above : newLen ≤ j
    · rw [if_pos above] at isSlot
      cases isSlot
    · rw [if_neg above] at isSlot
      exact sound.shadow j value property isSlot isProp

theorem validArrayLength_le (valid : validArrayLength value = some newLen) :
    newLen ≤ uint32Max := by
  unfold validArrayLength at valid
  cases value with
  | number n =>
    simp only at valid
    split_ifs at valid with inRange
    cases valid
    simp only [uint32Max]
    omega
  | undefined | text codePoints | other tag => cases valid

/-- Assignments to the length. -/
theorem Sound.setLength (sound : Sound object) (conversion : LengthConversion)
    (meets : LengthMeets conversion object value) (strict : Bool) :
    let result := object.setprop .length value strict none
    (view object).setLength conversion value strict = (setOutput result.1, view result.2) ∧
      Sound result.2 := by
  obtain ⟨converted, noneAbove⟩ := meets
  simp only [setprop, sound.isArray, EcmaArray.setLength, converted]
  cases valid : validArrayLength value with
  | none => exact ⟨rfl, sound⟩
  | some newLen =>
    obtain ⟨changed, changedSound⟩ :=
      sound.changeLength (validArrayLength_le valid) (noneAbove newLen valid)
    simp only [changed]
    exact ⟨rfl, changedSound⟩

end AntRuntime.Arrays
