import AntRuntime.Integrity.Kept

/-!
# Definitions under an integrity level

`Object.defineProperty` on a frozen, sealed or non-extensible object. The
elements of the buffer of an array move to the shape when an index is defined,
as plain properties; this keeps the keys, but not what freezing promised.
-/

namespace AntRuntime.Integrity

open Objects Arrays Function Object Bool

section Redefinitions

variable {object : Object} {existing : Property} {desc : Descriptor} {key : Key}

/-- A definition that a frozen object permits changes nothing that is seen. -/
theorem defined_of_frozen (frozen : object.frozen = true) (readonly : existing.writable = false)
    (fixed : existing.configurable = false) (permitted : object.refused key existing desc = none) :
    toEcma (defined (some existing) desc) = toEcma existing ∧
      (defined (some existing) desc).writable = false ∧
      (defined (some existing) desc).configurable = false := by
  rcases desc with ⟨value, writable, enumerable, configurable, get, set⟩
  rcases existing with ⟨old, oldWritable, oldEnumerable, oldConfigurable, getter, setter⟩
  subst readonly fixed
  unfold refused at permitted
  simp only [frozen, Bool.or_true, Bool.not_true,
    false_eq_true, if_false, ite_some_eq_none] at permitted
  obtain ⟨notConfigurable, sameEnumerable, notWritable, notData, notAccessor, sameGet,
    sameSet, _, sameValue, _⟩ := permitted
  have configurable_eq : configurable.getD false = false := by
    rcases configurable with _ | _ | _
    · rfl
    · rfl
    · exact absurd rfl notConfigurable
  have enumerable_eq : enumerable.getD oldEnumerable = oldEnumerable := by
    rcases enumerable with _ | wanted
    · rfl
    · cases wanted <;> cases oldEnumerable <;> simp_all
  rcases getter with _ | getter <;> rcases setter with _ | setter <;>
    rcases get with _ | get <;> rcases set with _ | set <;>
    rcases value with _ | value <;> rcases writable with _ | writable <;>
    simp_all [defined, toEcma, Property.isAccessor]

end Redefinitions

section Materialization

variable {level : Level} {object : Object}

/-- Nothing moves out of an empty buffer. -/
theorem moveDense_vacant
    (dense : object.denseBuf = true) (vacant : ∀ j, slot object j = none) (start count : Nat)
    (within : start + count ≤ object.cap) :
    object.moveDense start count = (false, object) := by
  induction count generalizing start with
  | zero => rfl
  | succ count ih =>
    rw [moveDense, denseGet_eq dense (by omega), vacant]
    exact ih (start + 1) (by omega)

theorem materializeDense_vacant (vacant : ∀ j, slot object j = none) (key : Key) :
    object.materializeDense key = object := by
  cases key with
  | index i =>
    simp only [Object.materializeDense]
    by_cases isDense : object.isArray && object.denseBuf && decide (i < uint32Max)
    · have dense : object.denseBuf = true := by
        simp only [and_eq_true] at isDense
        exact isDense.1.2
      rw [if_pos isDense, moveDense_vacant dense vacant 0 object.cap (by omega)]
      rfl
    · exact if_neg isDense
  | length | name text | symbol id => rfl

/-- The elements of the buffer as properties of the shape. -/
theorem Held.moved (held : Held level object) (unfrozen : level ≠ .frozen)
    (tidy : ∀ j, (slot object j).isSome = true → j < object.len) {data : Nat → Option Value}
    {fastArray : Bool} (fast : fastArray = true → object.fastArray = true)
    (vacant : ∀ j, slot
      { object with data, fastArray, props := movedProps object 0 object.cap } j =
        none) :
    Kept level object { object with data, fastArray, props := movedProps object 0 object.cap } := by
  have props_eq : ∀ j, (movedProps object 0 object.cap (.index j)).isSome =
      ((slot object j).isSome || (object.props (.index j)).isSome) := by
    intro j
    unfold movedProps
    simp only
    by_cases inside : j < object.cap
    · rw [if_pos ⟨Nat.zero_le j, by omega⟩]
      cases slot object j <;> simp
    · rw [slot_eq_none_of_cap_le (by omega : object.cap ≤ j)]
      simp
  have same : ∀ key, owns
      { object with data, fastArray, props := movedProps object 0 object.cap } key =
        owns object key := by
    intro key
    cases key with
    | index j =>
      rw [owns_index, owns_index, vacant j, props_eq]
      have := tidy j
      cases isSlot : (slot object j).isSome with
      | false => simp
      | true => simp [this isSlot]
    | length | name text | symbol id => rfl
  refine Kept.of_keys unfrozen ?_ rfl ?_ ?_ ?_
  · exact held.update unfrozen held.len_le (fun isFast => held.array (fast isFast)) rfl rfl
  · intro dense
    simp only [denseBuf, and_eq_true] at dense ⊢
    exact ⟨⟨fast dense.1, dense.2⟩, trivial⟩
  · exact fun key isOwn => (same key).symm.trans isOwn
  · exact fun _ key isOwn => (same key).trans isOwn

/-- Moving the buffer to the shape keeps the keys and empties the buffer of an
array. -/
theorem Held.materializeDense
    (held : Held level object) (unfrozen : level ≠ .frozen) (isArray : object.isArray = true)
    {i : Nat} (isIndex : i < uint32Max)
    (tidy : ∀ j, (slot object j).isSome = true → j < object.len) :
    Kept level object (object.materializeDense (.index i)) ∧
      ∀ j, slot (object.materializeDense (.index i)) j = none := by
  cases dense : object.denseBuf with
  | false =>
    have vacant : ∀ j, slot object j = none := fun j => slot_eq_none_of_not_denseBuf dense
    rw [materializeDense_vacant vacant]
    exact ⟨Kept.refl held, vacant⟩
  | true =>
    have moved_eq := moveDense_eq dense 0 object.cap (by omega)
    simp only [Object.materializeDense, isArray, dense, isIndex, decide_true,
      Bool.and_self, if_true]
    split_ifs with anyMoved
    · rw [moved_eq]
      have vacant : ∀ j, slot
          { object with
            data := fun j =>
              if 0 ≤ j ∧ j < 0 + object.cap then none else object.data j
            fastArray := false
            props := movedProps object 0 object.cap } j = none :=
        fun j => slot_eq_none_of_not_denseBuf rfl
      exact ⟨held.moved unfrozen tidy (fun isFalse => absurd isFalse (by simp)) vacant, vacant⟩
    · rw [moved_eq]
      have vacant : ∀ j, slot
          { object with
            data := fun j =>
              if 0 ≤ j ∧ j < 0 + object.cap then none else object.data j
            props := movedProps object 0 object.cap } j = none := by
        intro j
        by_cases inside : j < object.cap
        · refine (slot_eq_data (by exact dense) (by exact inside)).trans ?_
          exact if_pos ⟨Nat.zero_le j, by omega⟩
        · exact slot_eq_none_of_cap_le (Nat.not_lt.mp inside)
      exact ⟨held.moved unfrozen tidy id vacant, vacant⟩

end Materialization

section ShapeDefinitions

variable {level : Level} {object : Object} {existing property : Property} {key : Key}
variable {desc : Descriptor}

theorem Held.closed (held : Held level object) :
    (object.frozen || object.isSealed || !object.extensible) = true := by
  have enforced := held.enforced
  cases level with
  | frozen => simp [enforced.1]
  | sealed =>
    have isSealed : object.isSealed = true := enforced
    simp [isSealed]
  | inextensible =>
    have extensible : object.extensible = false := enforced
    simp [extensible]

/-- A property in place of an existing one, on a frozen object that shows no
difference. -/
theorem Held.replace_frozen (held : Held .frozen object) (isProp : object.props key = some existing)
    (sameView : toEcma property = toEcma existing) (readonly : property.writable = false)
    (fixed : property.configurable = false) :
    Kept .frozen object
      { object with props := Function.update object.props key (some property) } := by
  refine ⟨⟨held.len_le, held.array, held.enforced.1, ?_⟩, rfl,
    fun dense => ⟨dense, rfl⟩, rfl, rfl, rfl, rfl, ?_⟩
  · intro other found isFound
    change Function.update object.props key (some property) other = some found at isFound
    by_cases same : other = key
    · subst same
      rw [update_self] at isFound
      cases isFound
      exact ⟨readonly, fixed⟩
    · rw [update_of_ne same] at isFound
      exact held.enforced.2 other found isFound
  · intro other
    change (Function.update object.props key (some property) other).map toEcma =
      (object.props other).map toEcma
    by_cases same : other = key
    · subst same
      rw [update_self, isProp]
      exact congrArg some sameView
    · rw [update_of_ne same]

/-- The length that follows a definition. -/
theorem arrayDefineOrSetIndex_len (object : Object) (key : Key) :
    object.arrayDefineOrSetIndex key = object ∨
      ∃ i, key = .index i ∧ object.isArray = true ∧ object.len ≤ i ∧
        i < uint32Max ∧
        object.arrayDefineOrSetIndex key = { object with len := i + 1 } := by
  cases key with
  | index i =>
    simp only [arrayDefineOrSetIndex]
    split_ifs with grows
    · simp only [and_eq_true, decide_eq_true_eq] at grows
      obtain ⟨⟨isArray, isIndex⟩, above⟩ := grows
      rw [getArrayLength, if_pos isArray] at above
      refine Or.inr ⟨i, rfl, isArray, by omega, isIndex, ?_⟩
      rw [arrayLenSet_eq isArray, Nat.min_eq_left (by omega)]
    · exact Or.inl rfl
  | length | name text | symbol id => exact Or.inl rfl

/-- A definition in the shape: refused, or in place of an existing property. -/
theorem Held.defineInShape (held : Held level object) (key : Key) (desc : Descriptor)
    (frozenIndex : level = .frozen → object.isArray = true → ∀ i, key = .index i →
      (object.props (.index i)).isSome = true → i < object.len)
    (vacant : level ≠ .frozen → object.isArray = true → ∀ i, key = .index i →
      i < uint32Max → ∀ j, slot object j = none) :
    Kept level object (object.defineInShape key desc).2 := by
  have stored : ∀ existing, object.props key = some existing →
      object.refused key existing desc = none →
      Kept level object (({ object with
          props := Function.update object.props key
            (some (defined (some existing) desc)) } :
              Object).arrayDefineOrSetIndex key) := by
    intro existing isProp permitted
    rcases arrayDefineOrSetIndex_len { object with
        props := Function.update object.props key
          (some (defined (some existing) desc)) } key with
      same | ⟨i, isIndex, isArray, above, below, grown⟩
    · rw [same]
      by_cases isFrozen : level = .frozen
      · subst isFrozen
        obtain ⟨readonly, fixed⟩ := held.enforced.2 key existing isProp
        obtain ⟨sameView, readonly', fixed'⟩ :=
          defined_of_frozen held.enforced.1 readonly fixed permitted
        exact held.replace_frozen isProp sameView readonly' fixed'
      · exact held.replace_keys isFrozen isProp held.len_le (Or.inl rfl)
    · rw [grown]
      by_cases isFrozen : level = .frozen
      · have inside := frozenIndex isFrozen isArray i isIndex (by rw [← isIndex, isProp]; rfl)
        exact absurd inside (Nat.not_lt.mpr above)
      · exact held.replace_keys isFrozen isProp below
          (Or.inr (vacant isFrozen isArray i isIndex below))
  unfold Object.defineInShape
  simp only
  cases isProp : object.props key with
  | none =>
    simp only [held.closed]
    exact Kept.refl held
  | some existing =>
    simp only
    cases permitted : object.refused key existing desc with
    | some result => exact Kept.refl held
    | none =>
      simp only
      split_ifs
      · exact stored existing isProp permitted
      · split
        · exact Kept.refl held
        · exact stored existing isProp permitted

/-- A definition of the length of an array. -/
theorem Held.defineLength (held : Held level object) (isArray : object.isArray = true)
    (meets : ∀ value newLen, desc.value = some value →
      validArrayLength value = some newLen → LengthMeets level object newLen) :
    Kept level object (object.defineLength desc).2 := by
  have unchanged : LengthMeets level object object.len := by
    cases level with
    | frozen => exact rfl
    | sealed => exact fun _ _ => Iff.rfl
    | inextensible => exact fun _ _ => id
  unfold Object.defineLength
  split_ifs
  · exact Kept.refl held
  · exact Kept.refl held
  · cases isValue : desc.value with
    | none => exact held.changeLength isArray unchanged
    | some value =>
      simp only
      cases valid : validArrayLength value with
      | none => exact Kept.refl held
      | some newLen => exact held.changeLength isArray (meets value newLen isValue valid)

/-- Every definition that meets its condition. -/
theorem Held.defineProperty (held : Held level object) (meets : DefineMeets level object key desc) :
    Kept level object (object.defineProperty key desc).2 := by
  have closed := held.closed
  -- The element is never put into the buffer, which only extensible arrays allow.
  have slow : Kept level object ((object.materializeDense key).defineInShape key desc).2 ∨
      (object.isArray = true ∧ key = .length) := by
    by_cases isLength : object.isArray = true ∧ key = .length
    · exact Or.inr isLength
    refine Or.inl ?_
    by_cases isFrozen : level = .frozen
    · subst isFrozen
      have same : object.materializeDense key = object := by
        cases key with
        | index i =>
          cases isArray : object.isArray with
          | true => exact materializeDense_vacant (meets isArray).1 _
          | false => simp [Object.materializeDense, isArray]
        | length | name text | symbol id => rfl
      rw [same]
      refine held.defineInShape key desc ?_ (fun unfrozen => absurd rfl unfrozen)
      rintro _ isArray i rfl isProp
      exact (meets isArray).2 isProp
    · by_cases moves : ∃ i, key = .index i ∧ object.isArray = true ∧ i < uint32Max
      · obtain ⟨i, rfl, isArray, isIndex⟩ := moves
        have tidy : ∀ j, (slot object j).isSome = true → j < object.len := by
          cases level with
          | frozen => exact absurd rfl isFrozen
          | sealed | inextensible => exact meets isArray
        obtain ⟨kept, vacant⟩ := held.materializeDense isFrozen isArray isIndex tidy
        refine kept.trans (kept.held.defineInShape _ desc ?_ ?_)
        · exact fun frozen => absurd frozen isFrozen
        · exact fun _ _ _ _ _ => vacant
      · have same : object.materializeDense key = object := by
          cases key with
          | index i =>
            refine if_neg ?_
            simp only [and_eq_true, decide_eq_true_eq]
            rintro ⟨⟨isArray, _⟩, isIndex⟩
            exact moves ⟨i, rfl, isArray, isIndex⟩
          | length | name text | symbol id => rfl
        rw [same]
        refine held.defineInShape key desc (fun frozen => absurd frozen isFrozen) ?_
        rintro _ isArray i isKey isIndex
        exact absurd ⟨i, isKey, isArray, isIndex⟩ moves
  unfold Object.defineProperty
  cases valid : desc.invalid with
  | some message => exact Kept.refl held
  | none =>
    simp only
    split_ifs with isLength
    · simp only [and_eq_true, decide_eq_true_eq] at isLength
      obtain ⟨isArray, rfl⟩ := isLength
      exact held.defineLength isArray (meets isArray)
    · have slow := slow.resolve_right (by
        simpa using isLength)
      split
      · split_ifs with plain
        · simp only [and_eq_true, not_eq_true'] at plain
          obtain ⟨⟨⟨⟨⟨⟨_, extensible⟩, unsealed⟩, unfrozen⟩, _⟩, _⟩, _⟩ := plain
          rw [unfrozen, unsealed, extensible] at closed
          cases closed
        · exact slow
      · exact slow

end ShapeDefinitions

end AntRuntime.Integrity
