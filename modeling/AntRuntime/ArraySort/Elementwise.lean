import AntRuntime.ArraySort.Storage

/-!
# A sort without a buffer

The elements of an array without a buffer are properties of its shape. A sort
gathers them one by one, stores the sorted ones with assignments and deletes
what is left over.
-/

namespace AntRuntime.ArraySort

open Objects Arrays Sorting List Function World

variable {τ : Type}

/-- An array that can be changed, with all elements in its shape and none but
plain ones. -/
structure InShape (object : Object) : Prop where
  isArray : object.isArray = true
  unfrozen : object.frozen = false
  unsealed : object.isSealed = false
  extensible : object.extensible = true
  sparse : object.denseBuf = false
  plain : ∀ i property, object.props (.index i) = some property → property = .plain property.value

section Steps

variable {object : Object} {slots : List (Option Value)}

theorem eq_plain_of_toEcma
    {property : Property} {value : Value} (isPlain : toEcma property = .plain value) :
    property = .plain value := by
  rcases property with ⟨found, writable, enumerable, configurable, getter, setter⟩
  unfold toEcma at isPlain
  split_ifs at isPlain with accessor
  · simp [EcmaProperty.plain] at isPlain
  · simp only [Property.isAccessor, Bool.or_eq_true, not_or, Bool.not_eq_true,
      Option.isSome_eq_false_iff, Option.isNone_iff_eq_none] at accessor
    obtain ⟨rfl, rfl⟩ := accessor
    obtain ⟨rfl, rfl, rfl, rfl⟩ := isPlain
    rfl

/-- The elements of an array without a buffer. -/
theorem props_of_view
    (sparse : object.denseBuf = false) (isView : view object = ecmaLiteral slots) :
    ∀ i, object.props (.index i) = slots[i]?.join.map .plain := by
  obtain ⟨_, elements⟩ := view_eq_literal_iff.mp isView
  intro i
  have isElement := elements i
  rw [element, slot_eq_none_of_not_denseBuf sparse] at isElement
  cases isProp : object.props (.index i) with
  | none =>
    rw [isProp] at isElement
    cases found : slots[i]?.join with
    | none => rfl
    | some value =>
      rw [found] at isElement
      cases isElement
  | some property =>
    rw [isProp] at isElement
    obtain ⟨value, found, value_eq⟩ := Option.map_eq_some_iff.mp isElement.symm
    rw [found, eq_plain_of_toEcma value_eq.symm]
    rfl

theorem view_of_props (sparse : object.denseBuf = false) (length_eq : object.len = slots.length)
    (props_eq : ∀ i, object.props (.index i) = slots[i]?.join.map .plain) :
    view object = ecmaLiteral slots := by
  refine view_eq_literal_iff.mpr ⟨length_eq, fun i => ?_⟩
  rw [element, slot_eq_none_of_not_denseBuf sparse, props_eq i]
  cases slots[i]?.join <;> rfl

theorem inShape_of_view (sound : Sound object) (sparse : object.denseBuf = false)
    (isView : view object = ecmaLiteral slots) :
    InShape object where
  isArray := sound.isArray
  unfrozen := sound.unfrozen
  unsealed := sound.unsealed
  extensible := sound.extensible
  sparse := sparse
  plain := by
    intro i property isProp
    rw [props_of_view sparse isView] at isProp
    obtain ⟨value, _, rfl⟩ := Option.map_eq_some_iff.mp isProp
    rfl

/-- One element replaced or removed. -/
theorem InShape.update (inShape : InShape object) (i : Nat) (value : Option Value) :
    InShape
      { object with
        props := Function.update object.props (.index i) (value.map .plain) } := by
  refine { inShape with plain := fun j property isProp => ?_ }
  by_cases same : j = i
  · subst same
    simp only [update_self] at isProp
    obtain ⟨found, _, rfl⟩ := Option.map_eq_some_iff.mp isProp
    rfl
  · have other : Key.index j ≠ Key.index i := fun equal => same (Key.index.inj equal)
    simp only [update_of_ne other] at isProp
    exact inShape.plain j property isProp

section

variable (inShape : InShape object) (below : i < object.len)
include inShape below

/-- An assignment below the length. -/
theorem InShape.setprop (value : Value) (strict : Bool) :
    object.setprop (.index i) value strict none =
      (.returned,
        { object with
          props := Function.update object.props (.index i) (some (.plain value)) }) := by
  have length_eq : object.getArrayLength = object.len := by
    simp [Object.getArrayLength, inShape.isArray]
  have notHandled : object.setpropArrayFast i value strict = none := by
    simp [Object.setpropArrayFast, inShape.sparse, length_eq, below]
  have allowed : object.checkObjectExtensibility strict = none := by
    simp [Object.checkObjectExtensibility, inShape.unfrozen, inShape.unsealed, inShape.extensible]
  have ordinary : object.setprop (.index i) value strict none =
      object.setpropOrdinary (.index i) value strict none := by
    simp only [Object.setprop, inShape.isArray, notHandled]
  have settled (property : Property) :
      ({ object with
          props := Function.update object.props (.index i) (some property) } :
        Object).arrayDefineOrSetIndex (.index i) =
        { object with
          props := Function.update object.props (.index i) (some property) } := by
    have notAbove : ¬ object.len < i + 1 := by omega
    rw [Object.arrayDefineOrSetIndex]
    simp [Object.getArrayLength, inShape.isArray, notAbove]
  rw [ordinary, Object.setpropOrdinary]
  cases isProp : object.props (.index i) with
  | none =>
    simp only [Object.createNew, allowed, Object.mkprop, isProp]
    rw [settled]
    rfl
  | some property =>
    have isPlain := inShape.plain i property isProp
    simp only [Object.propStore, isProp]
    rw [settled, isPlain]
    rfl

/-- A deletion below the length. -/
theorem InShape.arrDel (strict : Bool) :
    object.arrDel i strict =
      { object with props := Function.update object.props (.index i) none } := by
  have length_eq : object.getArrayLength = object.len := by
    simp [Object.getArrayLength, inShape.isArray]
  have uncleared : object.deleteDense (.index i) = object := by
    simp [Object.deleteDense, inShape.sparse]
  have deleted : (object.deleteProp (.index i) strict).2 =
      { object with props := Function.update object.props (.index i) none } := by
    unfold Object.deleteProp
    rw [if_neg (by simp [inShape.unfrozen]), if_neg (by simp [inShape.unsealed]),
      if_neg (by simp), uncleared]
    cases isProp : object.props (.index i) with
    | none =>
      simp only [isProp]
      rw [← isProp, update_eq_self]
    | some property =>
      simp only [isProp]
      rw [inShape.plain i property isProp]
      rfl
  rw [Object.arrDel, if_neg (by omega), if_neg (by simp [inShape.sparse])]
  exact deleted

/-- A presence test below the length. -/
theorem InShape.arrHas : object.arrHas i none = (object.props (.index i)).isSome := by
  simp [Object.arrHas, Object.getArrayLength, inShape.isArray, inShape.sparse, below]

/-- A read of an element. -/
theorem InShape.arrGet {value : Value} (isProp : object.props (.index i) = some (.plain value)) :
    object.arrGet i none = .value value := by
  have sparse := inShape.sparse
  have notFast : (object.isArray && object.fastArray && decide (i < object.len) &&
      decide (i < object.cap)) = false := by
    simp only [Object.denseBuf, Bool.and_eq_false_iff, bne_eq_false_iff_eq] at sparse
    rcases sparse with slow | empty
    · simp [slow]
    · simp [empty]
  have notAbove : ¬ object.getArrayLength ≤ i := by
    simp [Object.getArrayLength, inShape.isArray, below]
  simp only [Object.arrGet, notFast, notAbove, inShape.sparse, isProp]
  rfl

end

end Steps

section Loops

variable {object : Object} {slots : List (Option Value)} {order : Order τ}
variable {outside : τ × Option Nat}

/-- The loop that gathers the elements. -/
theorem sortGather_eq
    (order : Order τ) (inShape : InShape object) (outside : τ × Option Nat) (count : Nat)
    (fits : start + count ≤ object.len) (slots : List (Option Value))
    (length_eq : slots.length = count)
    (props_eq : ∀ i, i < count →
      object.props (.index (start + i)) = slots[i]?.join.map .plain) :
    sortGather order.environment start count ⟨object, outside⟩ =
      ((definedValues slots, slots.count (some .undefined)), ⟨object, outside⟩) := by
  induction count generalizing start slots with
  | zero =>
    obtain rfl := length_eq_zero_iff.mp length_eq
    rfl
  | succ count ih =>
    obtain ⟨first, rest, rfl⟩ := exists_cons_of_length_eq_add_one length_eq
    have here := props_eq 0 (by omega)
    rw [Nat.add_zero] at here
    have tail := ih (by omega : start + 1 + count ≤ object.len) rest (by simpa using length_eq) (by
        intro i below
        have there := props_eq (i + 1) (by omega)
        rw [getElem?_cons_succ] at there
        rw [← there, Nat.add_right_comm, Nat.add_assoc])
    have present : arrHas order.environment ⟨object, outside⟩ start =
        (object.props (.index start)).isSome :=
      inShape.arrHas (by omega)
    rw [sortGather, present, here]
    cases first with
    | none =>
      rw [tail]
      simp
    | some value =>
      have read : arrGet order.environment ⟨object, outside⟩ start =
          (value, ⟨object, outside⟩) := by
        unfold arrGet
        have isValue := inShape.arrGet (by omega : start < object.len)
          (here.trans (by rfl : _ = some (Property.plain value)))
        simp only [Order.environment, isValue]
      simp only [read, tail]
      by_cases isUndefined : value = .undefined
      · subst isUndefined
        simp
      · rw [definedValues_some isUndefined]
        simp [isUndefined]

/-- A loop changes one element and then those behind it. -/
theorem update_window
    (props : Key → Option Property) (window : Nat → Option Property) (start count i : Nat) :
    (if start + 1 ≤ i ∧ i < start + 1 + count then window i
      else Function.update props (.index start) (window start) (.index i)) =
      if start ≤ i ∧ i < start + (count + 1) then window i else props (.index i) := by
  by_cases here : i = start
  · subst here
    rw [if_neg (by omega), if_pos (by omega), update_self]
  · have other : Key.index i ≠ Key.index start := fun equal => here (Key.index.inj equal)
    rw [update_of_ne other]
    exact if_congr (by omega) rfl rfl

/-- The loop that stores the sorted elements. -/
theorem arrSetAll_spec
    (order : Order τ) (inShape : InShape object) (outside : τ × Option Nat) (strict : Bool)
    (values : List Value) (fits : start + values.length ≤ object.len) :
    ∃ props,
      arrSetAll order.environment strict start values ⟨object, outside⟩ =
        ⟨{ object with props }, outside⟩ ∧
      InShape { object with props } ∧
      ∀ i, props (.index i) =
        if start ≤ i ∧ i < start + values.length then
          values[i - start]?.map .plain
        else object.props (.index i) := by
  induction values generalizing object start with
  | nil =>
    refine ⟨object.props, rfl, inShape, fun i => ?_⟩
    rw [if_neg (by simp only [length_nil]; omega)]
  | cons value values ih =>
    rw [length_cons] at fits
    have stored : arrSet order.environment ⟨object, outside⟩ start value strict =
        ⟨{ object with
            props := Function.update object.props (.index start)
              (some (.plain value)) }, outside⟩ := by
      have noBuffer : object.arrSetDense start (some value) = none := by
        simp [Object.arrSetDense, inShape.sparse]
      simp [arrSet, noBuffer, setprop, Order.environment, inShape.setprop
        (by omega : start < object.len)]
    have updated := inShape.update start (some value)
    obtain ⟨props, stores, stillInShape, props_eq⟩ :=
      ih updated (by omega : start + 1 + values.length ≤ object.len)
    refine ⟨props, ?_, stillInShape, fun i => ?_⟩
    · rw [arrSetAll, stored]
      exact stores
    · rw [props_eq, length_cons,
        ← update_window object.props fun i => (value :: values)[i - start]?.map .plain]
      split_ifs
      · rw [show i - start = i - (start + 1) + 1 by omega, getElem?_cons_succ]
      · simp

/-- The loop that deletes what is left over. -/
theorem arrDelAll_spec
    (inShape : InShape object) (outside : τ × Option Nat) (strict : Bool) (count : Nat)
    (fits : start + count ≤ object.len) :
    ∃ props,
      arrDelAll strict start count ⟨object, outside⟩ =
        ⟨{ object with props }, outside⟩ ∧
      ∀ i, props (.index i) =
        if start ≤ i ∧ i < start + count then none else object.props (.index i) := by
  induction count generalizing object start with
  | zero =>
    refine ⟨object.props, rfl, fun i => ?_⟩
    rw [if_neg (by omega)]
  | succ count ih =>
    have deleted : arrDel ⟨object, outside⟩ start strict =
        ⟨{ object with props := Function.update object.props (.index start) none }, outside⟩ := by
      simp only [arrDel, lift, inShape.arrDel (by omega : start < object.len)]
    obtain ⟨props, deletes, props_eq⟩ :=
      ih (inShape.update start none) (by omega : start + 1 + count ≤ object.len)
    refine ⟨props, ?_, fun i => ?_⟩
    · rw [arrDelAll, deleted]
      exact deletes
    · rw [props_eq]
      exact update_window object.props (fun _ => none) start count i

/-- The elements written back, and the holes behind them. -/
theorem arrangement_eq_writeback (slots : List (Option Value)) (sorted : List Value) :
    arrangement slots none sorted =
      (sorted ++ replicate (slots.count (some .undefined)) Value.undefined).map some ++
        replicate (slots.count none) none := by
  simp [arrangement]

/-- What the write-back makes of the array. -/
theorem sortWriteback_spec
    (order : Order τ) (inShape : InShape object) (isView : view object = ecmaLiteral slots)
    (outside : τ × Option Nat) (strict : Bool) {sorted : List Value}
    (perm : sorted.Perm (definedValues slots)) :
    ∃ after,
      sortWriteback order.environment strict false slots.length sorted
          (slots.count (some .undefined)) ⟨object, outside⟩ = ⟨after, outside⟩ ∧
      view after = ecmaLiteral (arrangement slots none sorted) := by
  obtain ⟨len_eq, _⟩ := view_eq_literal_iff.mp isView
  have total := (arrangement_perm perm).length_eq
  rw [arrangement_eq_writeback, length_append, length_map, length_replicate] at total
  unfold sortWriteback
  generalize written_eq :
    sorted ++ replicate (slots.count (some .undefined)) Value.undefined = written
    at total ⊢
  obtain ⟨stored, stores, stillInShape, stored_eq⟩ :=
    arrSetAll_spec order inShape outside strict written (by omega : 0 + written.length ≤ object.len)
  obtain ⟨props, deletes, props_eq⟩ :=
    arrDelAll_spec stillInShape outside strict (slots.length - written.length)
      (by omega : written.length + (slots.length - written.length) ≤ object.len)
  refine ⟨{ object with props }, ?_, ?_⟩
  · simp only [stores]
    exact deletes
  · refine view_of_props inShape.sparse (by
      rw [arrangement_eq_writeback, written_eq, length_append, length_map, length_replicate]
      change object.len = _
      omega) fun i => ?_
    change props (.index i) = _
    rw [props_eq, arrangement_eq_writeback, written_eq]
    by_cases isWritten : i < written.length
    · rw [if_neg (by omega)]
      refine (stored_eq i).trans ?_
      rw [if_pos (by omega), getElem?_append_left (by rwa [length_map]), getElem?_map]
      cases written[i]? <;> rfl
    · rw [getElem?_append_right (by rw [length_map]; omega), length_map]
      by_cases below : i < slots.length
      · rw [if_pos (by omega), getElem?_replicate_of_lt (by omega)]
        rfl
      · rw [if_neg (by omega), getElem?_eq_none (by rw [length_replicate]; omega)]
        refine (stored_eq i).trans ?_
        rw [if_neg (by omega), props_of_view inShape.sparse isView, getElem?_eq_none (by omega)]

/-- A sort without a buffer. -/
theorem sort_inShape
    (order : Order τ) (inShape : InShape object) (isView : view object = ecmaLiteral slots)
    (outside : τ × Option Nat) (strict : Bool) :
    let sorted := mergeSort order.before (definedValues slots) ⟨object, outside⟩
    ∃ after, sort order.environment ⟨object, outside⟩ order.argument strict =
        (.receiver, ⟨after, sorted.2.outside⟩) ∧
      view after = ecmaLiteral (arrangement slots none sorted.1) := by
  intro sorted
  obtain ⟨len_eq, _⟩ := view_eq_literal_iff.mp isView
  have length_eq : object.getArrayLength = slots.length := by
    simp [Object.getArrayLength, inShape.isArray, len_eq]
  by_cases isEmpty : slots.length = 0
  · obtain rfl := length_eq_zero_iff.mp isEmpty
    refine ⟨object, ?_, isView⟩
    have noElements : object.getArrayLength = 0 := length_eq
    unfold sort
    simp only [noElements]
    rfl
  · have gathered := sortGather_eq order inShape outside slots.length
      (by omega : 0 + slots.length ≤ object.len) slots rfl (by
        intro i _
        rw [Nat.zero_add]
        exact props_of_view inShape.sparse isView i)
    have sortedObject : sorted.2.object = object := mergeSort_object _ _ _
    have sortedWorld : sorted.2 = ⟨object, sorted.2.outside⟩ := by rw [← sortedObject]
    obtain ⟨after, writes, afterView⟩ := sortWriteback_spec order inShape isView
      sorted.2.outside strict (mergeSort_perm order.before _ ⟨object, outside⟩)
    refine ⟨after, ?_, afterView⟩
    unfold sort
    simp only [length_eq, inShape.sparse, if_neg isEmpty, Bool.false_eq_true, if_false,
      gathered, sortedValues_eq]
    rw [← writes, ← sortedWorld]

end Loops

end AntRuntime.ArraySort
