import AntRuntime.Arrays.Updates

/-!
# Definitions of array elements

`Object.defineProperty` on an index: the elements of the buffer move to the
shape, which changes nothing in the view, and the checks and changes of the
shape property are those of the standard.
-/

namespace AntRuntime.Arrays

open Objects Function Option

section Materialized

variable {object : Object} {value : Value}

/-- The property that a dense element becomes. -/
def overwritten (object : Object) (i : Nat) (value : Value) : Property :=
  match object.props (.index i) with
  | some existing =>
    { existing with
      value
      writable := true
      enumerable := true
      configurable := true }
  | none => .plain value

/-- The properties after the dense elements in a range have moved. -/
def movedProps (object : Object) (start count : Nat) : Key → Option Property
  | .index j =>
    if start ≤ j ∧ j < start + count then
      match slot object j with
      | some value => some (overwritten object j value)
      | none => object.props (.index j)
    else object.props (.index j)
  | key => object.props key

/-- The object after one element has moved. -/
def movedElement (object : Object) (i : Nat) (value : Value) : Object :=
  { object with
    data := update object.data i none
    props :=
      update object.props (.index i) (some (overwritten object i value)) }

section

variable (dense : object.denseBuf = true)
include dense

theorem mkprop_denseSet_eq (inside : i < object.cap) (value : Value) :
    (object.denseSet i none).mkprop (.index i) value true true true =
      movedElement object i value := by
  rw [denseSet_eq dense inside]
  simp only [Object.mkprop, movedElement, overwritten]
  cases object.props (.index i) <;> rfl

theorem slot_movedElement (inside : i < object.cap) (value : Value) :
    slot (movedElement object i value) = update (slot object) i none :=
  slot_update_data dense inside none

/-- Moving the first element of a range, then the rest. -/
theorem movedProps_movedElement (inside : start < object.cap)
    (isSlot : slot object start = some value)
    (count : Nat) :
    movedProps (movedElement object start value) (start + 1) count =
      movedProps object start (count + 1) := by
  funext key
  cases key with
  | index j =>
    simp only [movedProps, slot_movedElement dense inside value]
    by_cases first : j = start
    · subst first
      rw [if_neg (by omega), if_pos (by omega), isSlot]
      exact update_self ..
    · have apart : Key.index j ≠ Key.index start := fun equal => first (Key.index.inj equal)
      have range : (start + 1 ≤ j ∧ j < start + 1 + count) ↔
          (start ≤ j ∧ j < start + (count + 1)) := by omega
      have props_eq : (movedElement object start value).props (.index j) =
          object.props (.index j) := update_of_ne apart ..
      simp only [range, update_of_ne first, overwritten, props_eq]
  | length | name text | symbol id => rfl

/-- The moving loop empties its range of the buffer. -/
theorem moveDense_eq (start count : Nat) (within : start + count ≤ object.cap) :
    (object.moveDense start count).2 =
      { object with
        data := fun j =>
          if start ≤ j ∧ j < start + count then none else object.data j
        props := movedProps object start count } := by
  induction count generalizing object start with
  | zero =>
    have sameData :
        (fun j => if start ≤ j ∧ j < start + 0 then none else object.data j) = object.data := by
      funext j
      rw [if_neg (by omega)]
    have sameProps : movedProps object start 0 = object.props := by
      funext key
      cases key with
      | index j => exact if_neg (by omega)
      | length | name text | symbol id => rfl
    rw [sameData, sameProps]
    rfl
  | succ count ih =>
    have inside : start < object.cap := by omega
    have getStart := denseGet_eq dense inside
    have range : ∀ j, j ≠ start → ((start + 1 ≤ j ∧ j < start + 1 + count) ↔
          (start ≤ j ∧ j < start + (count + 1))) := by omega
    cases isSlot : slot object start with
    | none =>
      simp only [Object.moveDense, getStart, isSlot]
      rw [ih dense (start + 1) (by omega)]
      congr 1
      · funext j
        by_cases first : j = start
        · subst first
          rw [if_neg (by omega), if_pos (by omega), ← slot_eq_data dense inside]
          exact isSlot
        · simp only [range j first]
      · funext key
        cases key with
        | index j =>
          simp only [movedProps]
          by_cases first : j = start
          · subst first
            rw [if_neg (by omega), if_pos (by omega), isSlot]
          · simp only [range j first]
        | length | name text | symbol id => rfl
    | some value =>
      have step_eq := mkprop_denseSet_eq dense inside value
      simp only [Object.moveDense, getStart, isSlot, step_eq]
      rw [@ih (movedElement object start value) dense (start + 1)
        (by simp only [movedElement]; omega)]
      congr 1
      · funext j
        simp only [movedElement]
        by_cases first : j = start
        · subst first
          rw [if_neg (by omega), if_pos (by omega), update_self]
        · simp only [range j first, update_of_ne first]
      · exact movedProps_movedElement dense inside isSlot count

end

/-- A moved element is the plain property it was. -/
theorem Sound.toEcma_overwritten (sound : Sound object) (isSlot : slot object i = some value) :
    toEcma (overwritten object i value) = .plain value ∧
      (overwritten object i value).isAccessor = false := by
  cases isProp : object.props (.index i) with
  | none => simp [overwritten, isProp, toEcma, Property.plain, Property.isAccessor,
      EcmaProperty.plain]
  | some property =>
    have plain := sound.shadow i value property isSlot isProp
    have data : property.isAccessor = false := by
      simp only [Property.isPlain, Bool.and_eq_true, Bool.not_eq_true'] at plain
      exact plain.2
    have stillData : (overwritten object i value).isAccessor = false := by
      simpa [overwritten, isProp, Property.isAccessor] using data
    refine ⟨?_, stillData⟩
    rw [toEcma, if_neg (by simp [stillData])]
    simp [overwritten, isProp, EcmaProperty.plain]

/-- Moving all dense elements to the shape changes nothing in the view. -/
theorem Sound.moved (sound : Sound object) {data : Nat → Option Value} (vacant : ∀ j, slot
      { object with data, fastArray, props := movedProps object 0 object.cap } j =
        none) :
    let after : Object := { object with data, fastArray, props := movedProps object 0 object.cap }
    view after = view object ∧ Sound after ∧ ∀ j property, after.props (.index j) = some property →
        property.isAccessor = true → object.props (.index j) = some property := by
  intro after
  have props_eq : ∀ j, after.props (.index j) = match slot object j with
      | some value => some (overwritten object j value)
      | none => object.props (.index j) := by
    intro j
    by_cases inside : j < object.cap
    · exact if_pos ⟨Nat.zero_le j, by omega⟩
    · rw [slot_eq_none_of_cap_le (by omega : object.cap ≤ j)]
      exact if_neg (by omega)
  have unmoved : ∀ j property, after.props (.index j) = some property →
      property.isAccessor = true → object.props (.index j) = some property := by
    intro j property isProp isAccessor
    rw [props_eq] at isProp
    cases isSlot : slot object j with
    | none =>
      rw [isSlot] at isProp
      exact isProp
    | some value =>
      simp only [isSlot, some.injEq] at isProp
      rw [← isProp, (sound.toEcma_overwritten isSlot).2] at isAccessor
      cases isAccessor
  refine ⟨?_, { sound with slot_lt := ?_, prop_lt := ?_, shadow := ?_, accessor := ?_ }, unmoved⟩
  · have elements : element after = element object := by
      funext j
      rw [element, vacant j, props_eq, element]
      cases isSlot : slot object j with
      | none => rfl
      | some value => simp [(sound.toEcma_overwritten isSlot).1]
    simp only [view, elements]
    rfl
  · intro j value isSlot
    rw [vacant j] at isSlot
    cases isSlot
  · intro j property isProp
    rw [props_eq] at isProp
    cases isSlot : slot object j with
    | none =>
      rw [isSlot] at isProp
      exact sound.prop_lt j property isProp
    | some value => exact sound.slot_lt j value isSlot
  · intro j value property isSlot
    rw [vacant j] at isSlot
    cases isSlot
  · intro j property isProp isAccessor
    exact sound.accessor j property (unmoved j property isProp isAccessor) isAccessor

/-- `array_materialize_dense_for_define` empties the buffer and changes nothing
in the view. -/
theorem Sound.materializeDense (sound : Sound object) (isIndex : i < uint32Max) :
    let after := object.materializeDense (.index i)
    view after = view object ∧ Sound after ∧ (∀ j, slot after j = none) ∧
      ∀ j property, after.props (.index j) = some property →
        property.isAccessor = true → object.props (.index j) = some property := by
  intro after
  cases dense : object.denseBuf with
  | false =>
    have same : after = object := by simp [after, Object.materializeDense, dense]
    rw [same]
    exact ⟨rfl, sound, fun j => slot_eq_none_of_not_denseBuf dense, fun _ _ isProp _ => isProp⟩
  | true =>
    have moved_eq := moveDense_eq dense 0 object.cap (by omega)
    have vacant : ∀ (fastArray : Bool) (j : Nat), slot
        { object with
          data := fun j => if 0 ≤ j ∧ j < 0 + object.cap then none else object.data j
          fastArray
          props := movedProps object 0 object.cap } j = none := by
      intro fastArray j
      by_cases inside : j < object.cap
      · simp [slot, inside]
      · simp [slot, inside]
    have after_eq : ∃ fastArray, after =
        { object with
          data := fun j => if 0 ≤ j ∧ j < 0 + object.cap then none else object.data j
          fastArray
          props := movedProps object 0 object.cap } := by
      simp only [after, Object.materializeDense, sound.isArray, dense, isIndex, moved_eq]
      cases (object.moveDense 0 object.cap).1 with
      | true => exact ⟨false, rfl⟩
      | false => exact ⟨object.fastArray, rfl⟩
    obtain ⟨fastArray, after_eq⟩ := after_eq
    obtain ⟨view_eq, afterSound, unmoved⟩ := sound.moved (vacant fastArray)
    rw [after_eq]
    exact ⟨view_eq, afterSound, vacant fastArray, unmoved⟩

end Materialized

section Shape

variable {desc : Descriptor} {existing : Property} {condition : Prop} {key : Key}

attribute [simp] Property.isAccessor EcmaProperty.enumerable EcmaProperty.configurable

/-- A valid descriptor is not one of a value and of accessors at once. -/
theorem exclusive_of_valid (valid : desc.invalid = none) :
    (desc.value = none ∧ desc.writable = none) ∨ (desc.get = none ∧ desc.set = none) := by
  unfold Descriptor.invalid at valid
  split_ifs at valid with badGetter badSetter both
  simp only [Bool.and_eq_true, Bool.or_eq_true, not_and_or, not_or,
    Bool.not_eq_true, isSome_eq_false_iff, isNone_iff_eq_none] at both
  exact both

/-- The standard's property for one that was just made. -/
theorem toEcma_defined_none (desc : Descriptor) :
    toEcma (Object.defined none desc) = EcmaArray.created desc := by
  rcases desc with ⟨value, writable, enumerable, configurable, get, set⟩
  rcases get with _ | get <;> rcases set with _ | set <;>
    simp [Object.defined, EcmaArray.created, toEcma]

/-- The standard's property for one that was changed. -/
theorem toEcma_defined_some (valid : desc.invalid = none)
    (accessor : existing.isAccessor = true → existing.writable = false)
    (noStaleValue : desc.value = none → desc.writable.isSome = true →
      existing.isAccessor = true → existing.value = .undefined) :
    toEcma (Object.defined (some existing) desc) = EcmaArray.changed (toEcma existing) desc := by
  have exclusive := exclusive_of_valid valid
  rcases desc with ⟨value, writable, enumerable, configurable, get, set⟩
  rcases existing with ⟨old, oldWritable, oldEnumerable, oldConfigurable, getter, setter⟩
  rcases exclusive with ⟨rfl, rfl⟩ | ⟨rfl, rfl⟩
  · rcases get with _ | get <;> rcases set with _ | set <;>
      rcases getter with _ | getter <;> rcases setter with _ | setter <;>
      simp [Object.defined, EcmaArray.changed, toEcma]
  · rcases value with _ | value <;> rcases writable with _ | writable <;>
      rcases getter with _ | getter <;> rcases setter with _ | setter <;>
      simp_all [Object.defined, EcmaArray.changed, toEcma]

theorem ite_some_eq_none {α : Type} [Decidable condition] {result : α} {rest : Option α} :
    (if condition then some result else rest) = none ↔ ¬ condition ∧ rest = none := by
  split_ifs with holds <;> simp [holds]

variable {object : Object}

/-- The refusals are those of the standard. -/
theorem refused_eq_none_iff (unsealed : object.isSealed = false) (unfrozen : object.frozen = false)
    (valid : desc.invalid = none)
    (accessor : existing.isAccessor = true → existing.writable = false) (key : Key) :
    object.refused key existing desc = none ↔ EcmaArray.allows (toEcma existing) desc = true := by
  have exclusive := exclusive_of_valid valid
  rcases desc with ⟨value, writable, enumerable, configurable, get, set⟩
  rcases existing with ⟨old, oldWritable, oldEnumerable, oldConfigurable, getter, setter⟩
  unfold Object.refused
  simp only [unsealed, unfrozen, Bool.or_false]
  cases oldConfigurable with
  | true =>
    rcases getter with _ | getter <;> rcases setter with _ | setter <;>
      simp [toEcma, EcmaArray.allows]
  | false =>
    simp only [Bool.not_false, Bool.not_true, Bool.false_eq_true, if_false, ite_some_eq_none]
    rcases exclusive with ⟨rfl, rfl⟩ | ⟨rfl, rfl⟩
    · rcases get with _ | get <;> rcases set with _ | set <;>
        rcases getter with _ | getter <;> rcases setter with _ | setter <;>
        simp [toEcma, EcmaArray.allows, and_assoc]
    · rcases value with _ | value <;> rcases writable with _ | writable <;>
        rcases getter with _ | getter <;> rcases setter with _ | setter <;>
        cases oldWritable <;>
        simp_all [toEcma, EcmaArray.allows, and_assoc]

/-- The checks made again for a data descriptor refuse nothing more. -/
theorem refusedData_eq_none (unfrozen : object.frozen = false)
    (notRefused : object.refused key existing desc = none) :
    object.refusedData key existing desc (desc.configurable.getD existing.configurable) = none := by
  unfold Object.refused at notRefused
  unfold Object.refusedData
  simp only [unfrozen] at notRefused ⊢
  cases configurable : existing.configurable with
  | true => simp
  | false =>
    simp only [configurable, Bool.not_false, Bool.true_or, Bool.not_true,
      Bool.false_eq_true, if_false, ite_some_eq_none] at notRefused ⊢
    obtain ⟨notConfigurable, _, _, _, _, _, _, notWritable, sameValue, _⟩ := notRefused
    refine ⟨?_, ?_, ?_, trivial⟩
    · cases wanted : desc.configurable with
      | none => simp
      | some wantedConfigurable =>
        rw [wanted] at notConfigurable
        simpa using notConfigurable
    · intro readonly
      refine notWritable ?_
      simp_all
    · intro readonly
      refine sameValue ?_
      simp_all

/-- A permitted definition keeps the promises about accessors. -/
theorem defined_accessor {existing : Option Property}
    (accessor : ∀ property, existing = some property → property.isAccessor = true →
      property.writable = false ∧
        (property.getter = none → property.value = .undefined))
    (noHiddenValue : desc.set.isSome = true → desc.get = none →
      ∀ property, existing = some property → property.isAccessor = false →
        property.value = .undefined) :
    (Object.defined existing desc).isAccessor = true →
      (Object.defined existing desc).writable = false ∧
        ((Object.defined existing desc).getter = none →
          (Object.defined existing desc).value = .undefined) := by
  rcases desc with ⟨value, writable, enumerable, configurable, get, set⟩
  cases existing with
  | none =>
    rcases get with _ | get <;> rcases set with _ | set <;>
      simp [Object.defined]
  | some property =>
    rcases property with ⟨old, oldWritable, oldEnumerable, oldConfigurable, getter, setter⟩
    rcases get with _ | get <;> rcases set with _ | set <;>
      rcases value with _ | value <;> rcases writable with _ | writable <;>
      rcases getter with _ | getter <;> rcases setter with _ | setter <;>
      simp_all [Object.defined]

/-- One more check that refuses with an error. -/
theorem defineOutput_check [Decidable condition] {first : DefineResult} {rest : Option DefineResult}
    (now : defineOutput first = .thrown)
    (later : ∀ result, rest = some result → defineOutput result = .thrown) (result : DefineResult)
    (isRefused : (if condition then some first else rest) = some result) :
    defineOutput result = .thrown := by
  by_cases holds : condition
  · rw [if_pos holds] at isRefused
    cases isRefused
    exact now
  · rw [if_neg holds] at isRefused
    exact later result isRefused

/-- A refusal is an error. -/
theorem defineOutput_refused
    {result : DefineResult} (isRefused : object.refused key existing desc = some result) :
    defineOutput result = .thrown := by
  unfold Object.refused at isRefused
  by_cases configurable : (!(!existing.configurable || object.isSealed || object.frozen)) = true
  · rw [if_pos configurable] at isRefused
    cases isRefused
  · rw [if_neg configurable] at isRefused
    refine defineOutput_check rfl ?_ result isRefused
    iterate 8 refine defineOutput_check rfl ?_
    intro _ isNone
    cases isNone

/-- A new property of the shape. -/
theorem Sound.defineInShape_none
    (sound : Sound object) (isIndex : i < uint32Max) (isProp : object.props (.index i) = none) :
    object.defineInShape (.index i) desc =
      (.returned,
        { object with
          props := update object.props (.index i)
            (some (Object.defined none desc))
          len := max object.len (i + 1) }) := by
  unfold Object.defineInShape
  simp only [arrayDefineOrSetIndex_store sound.isArray isIndex, isProp]
  rw [if_neg (by simp [sound.unfrozen, sound.unsealed, sound.extensible])]

/-- An existing property of the shape. -/
theorem Sound.defineInShape_some
    (sound : Sound object) (isIndex : i < uint32Max)
    (isProp : object.props (.index i) = some existing) :
    object.defineInShape (.index i) desc =
      match object.refused (.index i) existing desc with
      | some result => (result, object)
      | none =>
        (.returned,
          { object with
            props := update object.props (.index i)
              (some (Object.defined (some existing) desc))
            len := max object.len (i + 1) }) := by
  unfold Object.defineInShape
  simp only [arrayDefineOrSetIndex_store sound.isArray isIndex, isProp]
  cases isRefused : object.refused (.index i) existing desc with
  | some result => rfl
  | none => simp [refusedData_eq_none sound.unfrozen isRefused]

/-- A definition on the shape of an array whose buffer is empty. -/
theorem Sound.defineInShape
    (sound : Sound object) (vacant : slot object i = none) (isIndex : i < uint32Max)
    (valid : desc.invalid = none)
    (noHiddenValue : desc.set.isSome = true → desc.get = none →
      ∀ property, object.props (.index i) = some property →
        property.isAccessor = false → property.value = .undefined)
    (noStaleValue : desc.value = none → desc.writable.isSome = true →
      ∀ property, object.props (.index i) = some property →
        property.isAccessor = true → property.value = .undefined) :
    let result := object.defineInShape (.index i) desc
    (view object).defineIndex i desc = (defineOutput result.1, view result.2) ∧
      Sound result.2 := by
  have element_eq : element object i = (object.props (.index i)).map toEcma := by
    simp only [element, vacant]
  have stored (existing : Option Property) (isExisting : object.props (.index i) = existing) :
      let after : Object :=
        { object with
          props := update object.props (.index i)
            (some (Object.defined existing desc))
          len := max object.len (i + 1) }
      view after = (view object).put i (toEcma (Object.defined existing desc)) ∧
        Sound after := by
    refine sound.putShape vacant isIndex _ (defined_accessor ?_ ?_)
    · intro property isProp isAccessor
      exact sound.accessor i property (isExisting.trans isProp) isAccessor
    · intro hasSet noGet property isProp isData
      exact noHiddenValue hasSet noGet property (isExisting.trans isProp) isData
  have unfixed : (view object).fixed i = false := by simp [EcmaArray.fixed, view]
  cases isProp : object.props (.index i) with
  | none =>
    obtain ⟨put_eq, putSound⟩ := stored none isProp
    have absent : (view object).props i = none := by
      change element object i = none
      rw [element_eq, isProp, map_none]
    have ecma_eq : (view object).defineIndex i desc =
        (.done, (view object).put i (EcmaArray.created desc)) := by
      simp [EcmaArray.defineIndex, valid, isSome_none, absent, unfixed]
    rw [toEcma_defined_none] at put_eq
    rw [ecma_eq, sound.defineInShape_none isIndex isProp]
    exact ⟨Prod.ext rfl put_eq.symm, putSound⟩
  | some existing =>
    have accessor : existing.isAccessor = true → existing.writable = false :=
      fun isAccessor => (sound.accessor i existing isProp isAccessor).1
    obtain ⟨put_eq, putSound⟩ := stored (some existing) isProp
    rw [toEcma_defined_some valid accessor (fun noValue hasWritable isAccessor =>
        noStaleValue noValue hasWritable existing isProp isAccessor)] at put_eq
    have permitted := refused_eq_none_iff sound.unsealed sound.unfrozen valid accessor (.index i)
    have present : (view object).props i = some (toEcma existing) := by
      change element object i = _
      rw [element_eq, isProp, map_some]
    have ecma_eq : (view object).defineIndex i desc =
        if EcmaArray.allows (toEcma existing) desc then
          (.done, (view object).put i (EcmaArray.changed (toEcma existing) desc))
        else (.thrown, view object) := by
      simp [EcmaArray.defineIndex, valid, isSome_none, present]
    rw [ecma_eq, sound.defineInShape_some isIndex isProp]
    cases isRefused : object.refused (.index i) existing desc with
    | some result =>
      have notAllowed :
          ¬ EcmaArray.allows (toEcma existing) desc = true := by
        intro allowed
        rw [← permitted, isRefused] at allowed
        cases allowed
      rw [if_neg notAllowed]
      exact ⟨Prod.ext (defineOutput_refused isRefused).symm rfl, sound⟩
    | none =>
      rw [if_pos (permitted.mp isRefused)]
      exact ⟨Prod.ext rfl put_eq.symm, putSound⟩

/-- A plain descriptor over nothing or over a plain element. -/
theorem defineIndex_plain
    {value : Value} (replaceable : Replaceable object i) (isPlain : desc.isPlain = true)
    (isValue : desc.value = some value) (valid : desc.invalid = none) :
    (view object).defineIndex i desc = (.done, (view object).put i (.plain value)) := by
  have unfixed : (view object).fixed i = false := by simp [EcmaArray.fixed, view]
  have current : (view object).props i = none ∨
      ∃ old, (view object).props i = some (.plain old) := by
    change element object i = none ∨ ∃ old, element object i = some (.plain old)
    simp only [element]
    cases slot object i with
    | some old => exact Or.inr ⟨old, rfl⟩
    | none =>
      cases isProp : object.props (.index i) with
      | none => exact Or.inl rfl
      | some property =>
        have plain := replaceable property isProp
        simp only [Property.isPlain, Bool.and_eq_true, Bool.not_eq_true'] at plain
        obtain ⟨⟨⟨writable, enumerable⟩, configurable⟩, data⟩ := plain
        refine Or.inr ⟨property.value, ?_⟩
        simp_all [toEcma, EcmaProperty.plain]
  simp only [Descriptor.isPlain, Bool.and_eq_true, decide_eq_true_eq, isNone_iff_eq_none] at isPlain
  obtain ⟨⟨⟨⟨⟨noGet, noSet⟩, _⟩, writable⟩, enumerable⟩, configurable⟩ := isPlain
  rcases current with absent | ⟨old, present⟩
  · simp only [EcmaArray.defineIndex, valid, absent, unfixed, EcmaArray.created, noGet, noSet,
      isValue, writable,
      enumerable, configurable]
    rfl
  · simp only [EcmaArray.defineIndex, valid, present, EcmaArray.changed, noGet, noSet, isValue,
      writable, enumerable,
      configurable]
    rfl

/-- Definitions of elements. -/
theorem Sound.defineIndex
    (sound : Sound object) (isIndex : i < uint32Max) (meets : DefineMeets object i desc) :
    let result := object.defineProperty (.index i) desc
    (view object).defineIndex i desc = (defineOutput result.1, view result.2) ∧
      Sound result.2 := by
  obtain ⟨replaceable, noHiddenValue, noStaleValue⟩ := meets
  cases valid : desc.invalid with
  | some message =>
    have result_eq : object.defineProperty (.index i) desc = (.error message, object) := by
      unfold Object.defineProperty
      rw [valid]
    rw [result_eq]
    refine ⟨?_, sound⟩
    simp only [EcmaArray.defineIndex, valid]
    rfl
  | none =>
    by_cases fast : desc.isPlain = true ∧ object.denseBuf = true ∧ i < object.cap
    · obtain ⟨isPlain, dense, inside⟩ := fast
      have plain := replaceable isPlain dense inside
      obtain ⟨value, isValue⟩ : ∃ value, desc.value = some value := by
        simp only [Descriptor.isPlain, Bool.and_eq_true] at isPlain
        exact isSome_iff_exists.mp isPlain.1.1.1.2
      have fastArray : object.fastArray = true := by
        simp only [Object.denseBuf, Bool.and_eq_true] at dense
        exact dense.1
      have result_eq : object.defineProperty (.index i) desc = (.returned,
            { object with
              data := update object.data i (some value)
              len := max object.len (i + 1) }) := by
        unfold Object.defineProperty
        simp only [valid, isValue]
        rw [if_neg (by simp), if_pos (by
          simp only [isPlain, sound.isArray, fastArray, sound.extensible,
            sound.unsealed, sound.unfrozen, isIndex, dense, inside, decide_true,
            Bool.not_false, Bool.and_self]), denseSet_eq dense inside]
        exact Prod.ext rfl (arrayDefineOrSetIndex_eq sound.isArray isIndex)
      obtain ⟨put_eq, putSound⟩ := sound.putDense dense inside plain isIndex value
      rw [result_eq, defineIndex_plain plain isPlain isValue valid]
      exact ⟨Prod.ext rfl put_eq.symm, putSound⟩
    · have result_eq : object.defineProperty (.index i) desc =
          (object.materializeDense (.index i)).defineInShape (.index i) desc := by
        unfold Object.defineProperty
        simp only [valid]
        rw [if_neg (by simp)]
        cases isValue : desc.value with
        | none => rfl
        | some value =>
          refine if_neg ?_
          simp only [Bool.and_eq_true, decide_eq_true_eq]
          rintro ⟨⟨⟨⟨⟨⟨⟨⟨isPlain, _⟩, _⟩, _⟩, _⟩, _⟩, _⟩, dense⟩, inside⟩
          exact fast ⟨isPlain, dense, inside⟩
      obtain ⟨view_eq, movedSound, vacant, unmoved⟩ := sound.materializeDense isIndex
      rw [result_eq, ← view_eq]
      refine movedSound.defineInShape (vacant i) isIndex valid ?_ ?_
      · intro hasSet noGet property isProp isData
        refine noHiddenValue hasSet noGet property.value property.writable
          property.enumerable property.configurable ?_
        have element_eq : element object i = element (object.materializeDense (.index i)) i :=
          congrFun (congrArg EcmaArray.props view_eq.symm) i
        rw [element_eq, element, vacant i, isProp, map_some, toEcma,
          if_neg (Bool.eq_false_iff.mp isData)]
      · intro noValue hasWritable property isProp isAccessor
        exact noStaleValue noValue hasWritable property
          (unmoved i property isProp isAccessor) isAccessor

/-- Definitions of the length. -/
theorem Sound.defineLength (sound : Sound object) (conversion : LengthConversion)
    (writable : desc.writable ≠ some false)
    (meets : ∀ value, desc.value = some value →
      LengthMeets conversion object value) :
    let result := object.defineProperty .length desc
    (view object).defineLength conversion desc = (defineOutput result.1, view result.2) ∧
      Sound result.2 := by
  have isLength : (object.isArray && decide (Key.length = .length)) = true := by
    simp [sound.isArray]
  have unlocked : (view object).lengthWritable = true := rfl
  unfold EcmaArray.defineLength
  cases valid : desc.invalid with
  | some message =>
    have result_eq : object.defineProperty .length desc = (.error message, object) := by
      unfold Object.defineProperty
      rw [valid]
    rw [result_eq]
    exact ⟨rfl, sound⟩
  | none =>
    have result_eq : object.defineProperty .length desc = object.defineLength desc := by
      unfold Object.defineProperty
      rw [valid]
      exact if_pos isLength
    rw [result_eq]
    simp only [Object.defineLength]
    by_cases accessors : (desc.get.isSome || desc.set.isSome) = true
    · rw [if_pos accessors, if_pos]
      · exact ⟨rfl, sound⟩
      · simp only [Bool.or_eq_true] at accessors ⊢
        tauto
    · rw [if_neg accessors]
      by_cases attributes : (decide (desc.enumerable = some true) ||
          decide (desc.configurable = some true)) = true
      · rw [if_pos attributes, if_pos]
        · exact ⟨rfl, sound⟩
        · simp only [Bool.or_eq_true] at attributes ⊢
          tauto
      · rw [if_neg attributes, if_neg]
        swap
        · simp [accessors, attributes, unlocked]
        simp only [if_neg writable]
        cases isValue : desc.value with
        | none =>
          obtain ⟨changed, changedSound⟩ :=
            sound.changeLength sound.len_le (fun i below above => by omega)
          have same : (view object).changeLength object.len = (true, view object) := if_pos rfl
          rw [same] at changed
          have viewSame : view object = view (object.changeLength object.len) :=
            congrArg Prod.snd changed
          exact ⟨Prod.ext rfl viewSame, changedSound⟩
        | some value =>
          obtain ⟨converted, noneAbove⟩ := meets value isValue
          simp only [converted]
          cases isLength : Object.validArrayLength value with
          | none => exact ⟨rfl, sound⟩
          | some newLen =>
            obtain ⟨changed, changedSound⟩ :=
              sound.changeLength (validArrayLength_le isLength) (noneAbove newLen isLength)
            simp only [changed]
            exact ⟨rfl, changedSound⟩

end Shape

end AntRuntime.Arrays
