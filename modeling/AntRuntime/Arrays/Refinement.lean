import AntRuntime.Arrays.Representation

/-!
# Array operations refine ECMAScript

Each operation on the two-part representation does to the view what the
standard prescribes, if it does not hit one of the places where the two parts
get out of step: a store to the buffer over a property of the shape that is not
plain, a length below an element of the shape, a length that is made read-only,
and accessors that meet a value left in their slot.
-/

namespace AntRuntime.Arrays

open Objects Function

/-- The output of a read. -/
def readOutput : Object.Read → Output
  | .value value => .value value
  | .call getter => .called getter

/-- The output of an assignment. -/
def setOutput : SetResult → Output
  | .returned => .done
  | .error _ => .thrown
  | .setter f => .called f

/-- The output of a deletion. -/
def deleteOutput : Object.DeleteResult → Output
  | .returned deleted => .bool deleted
  | .error _ => .thrown

/-- The output of a definition. -/
def defineOutput : DefineResult → Output
  | .returned => .done
  | .error _ => .thrown

/-- An operation as the runtime does it. -/
def step (object : Object) : Op → Output × Object
  | .get i => (readOutput (object.arrGet i none), object)
  | .has i => (.bool (object.arrHas i none || (object.props (.index i)).isSome), object)
  | .set i value strict =>
    let (result, after) := object.setprop (.index i) value strict none
    (setOutput result, after)
  | .delete i strict =>
    let (result, after) := object.deleteProp (.index i) strict
    (deleteOutput result, after)
  | .length => (.value (.number object.getArrayLength), object)
  | .setLength value strict =>
    let (result, after) := object.setprop .length value strict none
    (setOutput result, after)
  | .defineIndex i desc =>
    let (result, after) := object.defineProperty (.index i) desc
    (defineOutput result, after)
  | .defineLength desc =>
    let (result, after) := object.defineProperty .length desc
    (defineOutput result, after)

/-- The shape has no property at the index, or a plain one. -/
def Replaceable (object : Object) (i : Nat) : Prop :=
  ∀ property, object.props (.index i) = some property → property.isPlain = true

/-- A length that leaves no element of the shape behind. -/
def LengthMeets (conversion : LengthConversion) (object : Object) (value : Value) : Prop :=
  conversion.apply value = Object.validArrayLength value ∧
    ∀ newLen, Object.validArrayLength value = some newLen →
      ∀ i, i < object.len → newLen ≤ i → object.props (.index i) = none

/-- A definition that hides no property of the shape, and whose accessors meet
no value left in their slot. -/
def DefineMeets (object : Object) (i : Nat) (desc : Descriptor) : Prop :=
  (desc.isPlain = true → object.denseBuf = true → i < object.cap → Replaceable object i) ∧
  (desc.set.isSome = true → desc.get = none → ∀ value writable enumerable configurable,
      element object i = some (.data value writable enumerable configurable) →
      value = .undefined) ∧
  (desc.value = none → desc.writable.isSome = true →
    ∀ property, object.props (.index i) = some property →
      property.isAccessor = true → property.value = .undefined)

/-- The two parts of the representation stay in step under the operation. -/
def Meets (conversion : LengthConversion) (object : Object) : Op → Prop
  | .set i _ _ => object.denseBuf = true → i < object.densityLimit → Replaceable object i
  | .setLength value _ => LengthMeets conversion object value
  | .defineIndex i desc => DefineMeets object i desc
  | .defineLength desc =>
    desc.writable ≠ some false ∧
      ∀ value, desc.value = some value → LengthMeets conversion object value
  | _ => True

section Frames

variable {object : Object}

section

variable (sound : Sound object)
include sound

theorem Sound.getArrayLength : object.getArrayLength = object.len := by
  simp [Object.getArrayLength, sound.isArray]

theorem Sound.checkObjectExtensibility (strict : Bool) :
    object.checkObjectExtensibility strict = none := by
  simp [Object.checkObjectExtensibility, sound.unfrozen, sound.unsealed, sound.extensible]

theorem Sound.slot_eq_none (above : object.len ≤ i) : slot object i = none := by
  cases isSlot : slot object i with
  | none => rfl
  | some value =>
    have := sound.slot_lt i value isSlot
    omega

theorem Sound.props_eq_none (above : object.len ≤ i) : object.props (.index i) = none := by
  cases isProp : object.props (.index i) with
  | none => rfl
  | some property =>
    have := sound.prop_lt i property isProp
    omega

end

theorem arrayDefineOrSetIndex_eq (isArray : object.isArray = true) (isIndex : i < uint32Max) :
    object.arrayDefineOrSetIndex (.index i) = { object with len := max object.len (i + 1) } := by
  by_cases above : object.len < i + 1
  · have longer : max object.len (i + 1) = i + 1 := by omega
    have fits : i + 1 ≤ uint32Max := isIndex
    simp [Object.arrayDefineOrSetIndex, Object.getArrayLength, Object.arrayLenSet,
      isArray, isIndex, above, longer, fits]
  · have same : max object.len (i + 1) = object.len := by omega
    rw [same, Object.arrayDefineOrSetIndex, if_neg]
    simp [Object.getArrayLength, isArray, above]

/-- A property stored at an index, with the length that follows. -/
theorem arrayDefineOrSetIndex_store
    (isArray : object.isArray = true) (isIndex : i < uint32Max) (property : Property) :
    ({ object with
        props := update object.props (.index i) (some property) } :
      Object).arrayDefineOrSetIndex (.index i) =
      { object with
        props := update object.props (.index i) (some property)
        len := max object.len (i + 1) } :=
  arrayDefineOrSetIndex_eq isArray isIndex

theorem props_update_of_ne (other : j ≠ i) (property : Option Property) :
    update object.props (.index i) property (.index j) = object.props (.index j) :=
  update_of_ne (fun same => other (Key.index.inj same)) ..

/-- A change at one index keeps the array sound if what is there now is sound. -/
theorem Sound.replaceAt
    (sound : Sound object) {data : Nat → Option Value} {props : Key → Option Property}
    (slots : ∀ j, j ≠ i → slot { object with data, props, len } j = slot object j)
    (others : ∀ j, j ≠ i → props (.index j) = object.props (.index j)) (longer : object.len ≤ len)
    (lenLe : len ≤ uint32Max)
    (below : slot { object with data, props, len } i ≠ none ∨ props (.index i) ≠ none → i < len)
    (shadow : ∀ value property, slot { object with data, props, len } i = some value →
      props (.index i) = some property → property.isPlain = true)
    (accessor : ∀ property, props (.index i) = some property → property.isAccessor = true →
      property.writable = false ∧ (property.getter = none → property.value = .undefined)) :
    element { object with data, props, len } =
        update (element object) i (element { object with data, props, len } i) ∧
      Sound { object with data, props, len } := by
  refine ⟨?_, { sound with
    len_le := lenLe
    slot_lt := fun j value isSlot => ?_
    prop_lt := fun j property isProp => ?_
    shadow := fun j value property isSlot isProp => ?_
    accessor := fun j property isProp => ?_ }⟩
  · funext j
    by_cases same : j = i
    · rw [same, update_self]
    · rw [update_of_ne same]
      simp only [element, slots j same, others j same]
  all_goals by_cases same : j = i
  · exact same ▸ below (.inl (by simp [← same, isSlot]))
  · rw [slots j same] at isSlot
    exact (sound.slot_lt j value isSlot).trans_le longer
  · exact same ▸ below (.inr (by simp [← same, show props (.index j) = _ from isProp]))
  · exact (sound.prop_lt j property ((others j same).symm.trans isProp)).trans_le longer
  · subst same
    exact shadow value property isSlot isProp
  · rw [slots j same] at isSlot
    exact sound.shadow j value property isSlot ((others j same).symm.trans isProp)
  · subst same
    exact accessor property isProp
  · exact sound.accessor j property ((others j same).symm.trans isProp)

/-- A store to the buffer puts a plain element. -/
theorem Sound.putDense
    (sound : Sound object) (dense : object.denseBuf = true) (inside : i < object.cap)
    (replaceable : Replaceable object i) (isIndex : i < uint32Max) (value : Value) :
    let after : Object :=
      { object with
        data := update object.data i (some value)
        len := max object.len (i + 1) }
    view after = (view object).put i (.plain value) ∧ Sound after := by
  intro after
  have slots : slot after = update (slot object) i (some value) :=
    slot_update_data dense inside (some value)
  have stored : slot after i = some value := by rw [slots, update_self]
  have := sound.len_le
  obtain ⟨elements, putSound⟩ : element after =
      update (element object) i (element after i) ∧ Sound after :=
    sound.replaceAt (fun j other => (congrFun slots j).trans (update_of_ne other ..))
      (fun _ _ => rfl) (by omega) (by omega) (fun _ => by omega)
      (fun _ property _ isProp => replaceable property isProp) (sound.accessor i)
  refine ⟨?_, putSound⟩
  have isPlain : element after i = some (.plain value) := by simp only [element, stored]
  rw [isPlain] at elements
  simp only [view, EcmaArray.put, after, elements]

/-- A property put into the shape where the buffer is empty. -/
theorem Sound.putShape
    (sound : Sound object) (vacant : slot object i = none) (isIndex : i < uint32Max)
    (property : Property)
    (accessor : property.isAccessor = true →
      property.writable = false ∧
        (property.getter = none → property.value = .undefined)) :
    let after : Object :=
      { object with
        props := update object.props (.index i) (some property)
        len := max object.len (i + 1) }
    view after = (view object).put i (toEcma property) ∧ Sound after := by
  intro after
  have stored : after.props (.index i) = some property := update_self ..
  have := sound.len_le
  obtain ⟨elements, putSound⟩ : element after =
      update (element object) i (element after i) ∧ Sound after :=
    sound.replaceAt (fun _ _ => rfl) (fun j other => props_update_of_ne other _) (by omega)
      (by omega) (fun _ => by omega) (fun value _ isSlot _ => by cases vacant.symm.trans isSlot)
      (fun other isProp => by cases stored.symm.trans isProp; exact accessor)
  refine ⟨?_, putSound⟩
  have isElement : element after i = some (toEcma property) := by
    simp only [element, show slot after i = none from vacant, stored, Option.map_some]
  rw [isElement] at elements
  simp only [view, EcmaArray.put, after, elements]

end Frames

section Steps

variable {object : Object} (conversion : LengthConversion)

/-- The fast path of a read looks at the buffer below the length. -/
theorem fastSlot_eq (array : object.isArray = true) (i : Nat) :
    (if object.isArray && object.fastArray && decide (i < object.len) &&
        decide (i < object.cap) then object.data i else none) =
      if i < object.len then slot object i else none := by
  by_cases inside : i < object.cap
  · have nonempty : object.cap ≠ 0 := by omega
    by_cases below : i < object.len <;> simp [slot, Object.denseBuf, array, below, nonempty]
  · simp [slot, inside]

/-- Below the length the iterable part of the buffer is the buffer. -/
theorem iterableSlot_eq (array : object.isArray = true) (below : i < object.len) :
    (if object.denseBuf && decide (i < object.denseIterableLength) then
        object.denseGet i else none) = slot object i := by
  cases dense : object.denseBuf with
  | false => simp [slot, dense]
  | true =>
    by_cases inside : i < object.cap
    · simp [slot, Object.denseIterableLength, Object.denseGet,
        Object.getArrayLength, array, dense, inside, below]
    · simp [slot, Object.denseIterableLength, dense, inside]

/-- Reads. -/
theorem Sound.get (sound : Sound object) (i : Nat) :
    (view object).get i = readOutput (object.arrGet i none) := by
  have array := sound.isArray
  unfold Object.arrGet
  simp only [fastSlot_eq array, sound.getArrayLength]
  by_cases below : i < object.len
  · simp only [below, Nat.not_le.mpr below, iterableSlot_eq array below]
    simp only [EcmaArray.get, view, element]
    cases slot object i with
    | some value => rfl
    | none =>
      cases isProp : object.props (.index i) with
      | none => rfl
      | some property =>
        have accessor := sound.accessor i property isProp
        rcases property with ⟨value, writable, enumerable, configurable,
          _ | _ | getter, _ | setter⟩ <;>
          simp_all [toEcma, Property.isAccessor, Object.readProperty, readOutput]
  · have above : object.len ≤ i := by omega
    simp [EcmaArray.get, view, element, sound.slot_eq_none above,
      sound.props_eq_none above, above, readOutput]

/-- Presence tests. -/
theorem Sound.has (sound : Sound object) (i : Nat) :
    (view object).has i = (object.arrHas i none || (object.props (.index i)).isSome) := by
  have array := sound.isArray
  have presence : object.arrHas i none = (decide (i < object.len) &&
        ((slot object i).isSome || (object.props (.index i)).isSome)) := by
    unfold Object.arrHas
    rw [sound.getArrayLength, Option.or_none]
    by_cases below : i < object.len
    · rw [← iterableSlot_eq array below]
      cases object.denseBuf && decide (i < object.denseIterableLength) <;> rfl
    · simp [below]
  rw [presence]
  simp only [EcmaArray.has, view, element]
  cases isSlot : slot object i with
  | some value =>
    have below := sound.slot_lt i value isSlot
    simp [below]
  | none =>
    cases isProp : object.props (.index i) with
    | none | some property => simp

/-- An assignment over nothing or over a plain element puts a plain one. -/
theorem set_replaceable (replaceable : Replaceable object i) (value : Value) (strict : Bool) :
    (view object).set i value strict = (.done, (view object).put i (.plain value)) := by
  simp only [EcmaArray.set, view, element]
  cases slot object i with
  | some old => rfl
  | none =>
    cases isProp : object.props (.index i) with
    | none => simp [EcmaArray.fixed]
    | some property =>
      have plain := replaceable property isProp
      rcases property with ⟨old, writable, enumerable, configurable, getter, setter⟩
      simp only [Property.isPlain, Property.isAccessor, Bool.and_eq_true,
        Bool.not_eq_true', Bool.or_eq_false_iff, Option.isSome_eq_false_iff,
        Option.isNone_iff_eq_none] at plain
      obtain ⟨⟨⟨rfl, rfl⟩, rfl⟩, rfl, rfl⟩ := plain
      rfl

/-- A grown buffer holds the same array. -/
theorem Sound.grown
    (sound : Sound object) {data : Nat → Option Value}
    (capLe : cap ≤ uint32Max) (slots : slot { object with data, cap, fastArray } = slot object) :
    view { object with data, cap, fastArray } = view object ∧
      Sound { object with data, cap, fastArray } := by
  refine ⟨?_, { sound with cap_le := capLe, slot_lt := ?_, shadow := ?_ }⟩
  · have elements : element { object with data, cap, fastArray } = element object := by
      funext i
      simp only [element, slots]
    simp only [view, elements]
  · rw [slots]
    exact sound.slot_lt
  · rw [slots]
    exact sound.shadow

/-- The dense branch of `arr_set`. -/
theorem Sound.arrSetDense
    (sound : Sound object) (dense : object.denseBuf = true) (near : i < object.densityLimit)
    (beyond : object.denseIterableLength ≤ i) (isIndex : i < uint32Max)
    (replaceable : Replaceable object i) (value : Value) :
    ∃ after, object.arrSetDense i (some value) = some after ∧
      view after = (view object).put i (.plain value) ∧ Sound after := by
  have iterable : object.denseIterableLength = min object.cap object.len := by
    simp [Object.denseIterableLength, dense, sound.getArrayLength]
  obtain ⟨data, cap, fastArray, grownEq, room, capLe, slots, stillDense⟩ :=
    exists_room dense sound.cap_le isIndex
  obtain ⟨view_eq, grownSound⟩ := sound.grown capLe slots
  have vacant : ∀ j, object.denseIterableLength ≤ j →
      slot { object with data, cap, fastArray } j = none := by
    intro j above
    rw [slots]
    by_cases atLen : object.len ≤ j
    · exact sound.slot_eq_none atLen
    · exact slot_eq_none_of_cap_le (by omega)
  have untouched := emptyUndefined_eq stillDense object.denseIterableLength
    (i - object.denseIterableLength) (by simp only; omega) vacant
  obtain ⟨put_eq, putSound⟩ := grownSound.putDense stillDense room replaceable isIndex value
  refine ⟨_, ?_, ?_, putSound⟩
  · simp only [Object.arrSetDense, dense, if_true]
    rw [if_neg (by omega), if_neg (by omega), grownEq, Option.map_some, untouched,
      denseSet_eq stillDense room, sound.getArrayLength]
    by_cases above : object.len ≤ i
    · have longer : max object.len (i + 1) = i + 1 := by omega
      have fits : min (i + 1) uint32Max = i + 1 := by omega
      rw [if_pos above, Object.arrayLenSet, if_pos sound.isArray, fits, longer]
    · have same : max object.len (i + 1) = object.len := by omega
      rw [if_neg above, same]
  · rw [put_eq, view_eq]

end Steps

end AntRuntime.Arrays
