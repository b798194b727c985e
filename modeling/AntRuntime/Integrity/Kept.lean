import AntRuntime.Integrity.Levels

/-!
# Operations that keep an integrity level

`Kept` relates a state to a later one in which the level still holds and its
promise has been kept. Assignments, deletions and definitions are shown to keep
the level under their conditions; the mutators are built from them.
-/

namespace AntRuntime.Integrity

open Objects Arrays Function Object Bool

/-- The flags and attributes that enforce a level. -/
def Level.Enforced : Level → Object → Prop
  | .frozen, object =>
    object.frozen = true ∧ ∀ key property, object.props key = some property →
      property.writable = false ∧ property.configurable = false
  | .sealed, object => object.isSealed = true
  | .inextensible, object => object.extensible = false

/-- An object, with a length that fits its field, on which a level holds. -/
structure Held (level : Level) (object : Object) : Prop where
  len_le : object.len ≤ uint32Max
  array : object.fastArray = true → object.isArray = true
  enforced : level.Enforced object

/-- The own properties are kept as far as the level promises. -/
def Level.Preserved : Level → Object → Object → Prop
  | .frozen, before, after =>
    after.len = before.len ∧ after.cap = before.cap ∧
      after.data = before.data ∧ after.fastArray = before.fastArray ∧
      ∀ key, (after.props key).map toEcma = (before.props key).map toEcma
  | .sealed, before, after => ∀ key, owns after key = owns before key
  | .inextensible, before, after => ∀ key, owns after key = true → owns before key = true

/-- The level still holds, and its promise has been kept. -/
structure Kept (level : Level) (before after : Object) : Prop where
  held : Held level after
  isArray : after.isArray = before.isArray
  dense : after.denseBuf = true → before.denseBuf = true ∧ after.cap = before.cap
  preserved : level.Preserved before after

section Relation

variable {level : Level} {a b c : Object}

theorem Kept.refl (held : Held level a) : Kept level a a where
  held := held
  isArray := rfl
  dense := fun dense => ⟨dense, rfl⟩
  preserved := by
    cases level with
    | frozen => exact ⟨rfl, rfl, rfl, rfl, fun _ => rfl⟩
    | sealed => exact fun _ => rfl
    | inextensible => exact fun _ => id

theorem Kept.trans (first : Kept level a b) (second : Kept level b c) :
    Kept level a c where
  held := second.held
  isArray := second.isArray.trans first.isArray
  dense := by
    intro dense
    obtain ⟨denseB, cap_eq⟩ := second.dense dense
    obtain ⟨denseA, cap_eq'⟩ := first.dense denseB
    exact ⟨denseA, cap_eq.trans cap_eq'⟩
  preserved := by
    have one := first.preserved
    have two := second.preserved
    cases level with
    | frozen =>
      obtain ⟨len₁, cap₁, data₁, fast₁, props₁⟩ := one
      obtain ⟨len₂, cap₂, data₂, fast₂, props₂⟩ := two
      exact ⟨len₂.trans len₁, cap₂.trans cap₁, data₂.trans data₁, fast₂.trans fast₁,
        fun key => (props₂ key).trans (props₁ key)⟩
    | sealed => exact fun key => (two key).trans (one key)
    | inextensible => exact fun key isOwn => one key (two key isOwn)

theorem Kept.of_eq (held : Held level a) (same : b = a) : Kept level a b := by
  rw [same]
  exact Kept.refl held

/-- A kept object without a buffer has none. -/
theorem Kept.sparse (kept : Kept level a b) (sparse : a.denseBuf = false) : b.denseBuf = false := by
  cases dense : b.denseBuf with
  | false => rfl
  | true =>
    rw [(kept.dense dense).1] at sparse
    cases sparse

/-- Kept own properties are what the level promises. -/
theorem Kept.promise (kept : Kept level a b) : level.Promise a b := by
  have isArray := kept.isArray
  have preserved := kept.preserved
  cases level with
  | frozen =>
    obtain ⟨len_eq, cap_eq, data_eq, fast_eq, props_eq⟩ := preserved
    have slots : slot b = slot a := by
      funext i
      simp [slot, denseBuf, fast_eq, cap_eq, data_eq]
    intro key
    cases key with
    | index i => simp only [own, slots, len_eq, props_eq]
    | length => simp only [own, isArray, len_eq, props_eq]
    | name text => exact props_eq (.name text)
    | symbol id => exact props_eq (.symbol id)
  | sealed | inextensible => exact preserved

/-- Keys that are kept, for the levels that promise only keys. -/
theorem Kept.of_keys
    (unfrozen : level ≠ .frozen) (held : Held level b) (isArray : b.isArray = a.isArray)
    (dense : b.denseBuf = true → a.denseBuf = true ∧ b.cap = a.cap)
    (added : ∀ key, owns b key = true → owns a key = true)
    (removed : level = .sealed → ∀ key, owns a key = true → owns b key = true) :
    Kept level a b := by
  refine ⟨held, isArray, dense, ?_⟩
  cases level with
  | frozen => exact absurd rfl unfrozen
  | sealed =>
    intro key
    exact eq_iff_iff.mpr ⟨added key, removed rfl key⟩
  | inextensible => exact added

/-- A level that holds only changes with the flags and the properties. -/
theorem Held.update (held : Held level a) (unfrozen : level ≠ .frozen) (len_le : b.len ≤ uint32Max)
    (array : b.fastArray = true → b.isArray = true) (sealed_eq : b.isSealed = a.isSealed)
    (extensible_eq : b.extensible = a.extensible) :
    Held level b := by
  refine ⟨len_le, array, ?_⟩
  have enforced := held.enforced
  cases level with
  | frozen => exact absurd rfl unfrozen
  | sealed => exact sealed_eq.trans enforced
  | inextensible => exact extensible_eq.trans enforced

/-- No level lets a property be added. -/
theorem Held.checkObjectExtensibility (held : Held level a) (strict : Bool) :
    ∃ message, a.checkObjectExtensibility strict = some (.failure strict message) := by
  have enforced := held.enforced
  unfold Object.checkObjectExtensibility
  cases level with
  | frozen =>
    rw [if_pos enforced.1]
    exact ⟨_, rfl⟩
  | sealed =>
    have isSealed : a.isSealed = true := enforced
    cases a.frozen with
    | true => exact ⟨_, rfl⟩
    | false =>
      simp only [isSealed]
      exact ⟨_, rfl⟩
  | inextensible =>
    have extensible : a.extensible = false := enforced
    cases a.frozen with
    | true => exact ⟨_, rfl⟩
    | false =>
      cases a.isSealed with
      | true => exact ⟨_, rfl⟩
      | false =>
        simp only [Bool.false_eq_true, extensible]
        exact ⟨_, rfl⟩

theorem Held.sparse (held : Held level a) (ordinary : a.isArray = false) : a.denseBuf = false := by
  cases fast : a.fastArray with
  | false => simp [denseBuf, fast]
  | true =>
    rw [held.array fast] at ordinary
    cases ordinary

theorem owns_index (a : Object) (i : Nat) :
    owns a (.index i) =
      ((decide (i < a.len) && (slot a i).isSome) ||
        (a.props (.index i)).isSome) := by
  unfold owns own
  by_cases below : i < a.len
  · cases isSlot : slot a i <;> simp [below, isSlot]
  · simp [below]

theorem owns_of_slot (below : i < a.len) (isSlot : (slot a i).isSome = true) :
    owns a (.index i) = true := by
  rw [owns_index, isSlot]
  simp [below]

/-- An object with the elements and the properties of another one has its keys. -/
theorem owns_mono {key : Key} (isOwn : owns a key = true) (isArray : b.isArray = a.isArray)
    (elements : ∀ i, i < a.len → (slot a i).isSome = true → owns b (.index i) = true)
    (props : ∀ key, (a.props key).isSome = true → (b.props key).isSome = true) :
    owns b key = true := by
  cases key with
  | index i =>
    rw [owns_index, or_eq_true, and_eq_true, decide_eq_true_eq] at isOwn
    rcases isOwn with ⟨below, isSlot⟩ | isProp
    · exact elements i below isSlot
    · rw [owns_index, props _ isProp, Bool.or_true]
  | length =>
    unfold owns own at isOwn ⊢
    rw [isArray]
    split_ifs at isOwn ⊢
    · rfl
    · rw [Option.isSome_map] at isOwn ⊢
      exact props _ isOwn
  | name text | symbol id =>
    unfold owns own at isOwn ⊢
    rw [Option.isSome_map] at isOwn ⊢
    exact props _ isOwn

end Relation

section Stores

variable {level : Level} {object : Object}

/-- A property in place of an existing one keeps the keys, also if the length
of an array with an empty buffer grows with it. -/
theorem Held.replace_keys (held : Held level object) (unfrozen : level ≠ .frozen) {key : Key}
    {existing property : Property} (isProp : object.props key = some existing) {len : Nat}
    (len_le : len ≤ uint32Max) (sameSlots : len = object.len ∨ ∀ j, slot object j = none) :
    Kept level object
      { object with
        props := Function.update object.props key (some property)
        len } := by
  have present (other : Key) : (Function.update object.props key (some property)
      other).isSome = (object.props other).isSome := by
    by_cases equal : other = key
    · subst equal
      simp [isProp]
    · rw [update_of_ne equal]
  have seen (i : Nat) (isSlot : (slot object i).isSome = true) : i < len ↔ i < object.len := by
    rcases sameSlots with rfl | vacant
    · exact Iff.rfl
    · rw [vacant] at isSlot
      cases isSlot
  refine Kept.of_keys unfrozen (held.update unfrozen len_le held.array rfl rfl) rfl
    (fun dense => ⟨dense, rfl⟩) ?_ ?_
  · intro other isOwn
    exact owns_mono isOwn rfl
      (fun i below isSlot => owns_of_slot ((seen i isSlot).mp below) isSlot)
      (fun other isOld => (present other).symm.trans isOld)
  · intro _ other isOwn
    exact owns_mono isOwn rfl
      (fun i below isSlot => owns_of_slot ((seen i isSlot).mpr below) isSlot)
      (fun other isOld => (present other).trans isOld)

/-- A value stored in an existing property keeps the keys. -/
theorem Held.propStore (held : Held level object) {key : Key} {property : Property}
    (isProp : object.props key = some property) (writable : property.writable = true)
    (value : Value) :
    Kept level object (object.propStore key value) := by
  have unfrozen : level ≠ .frozen := by
    rintro rfl
    have := (held.enforced.2 key property isProp).1
    rw [writable] at this
    cases this
  unfold Object.propStore
  rw [isProp]
  exact held.replace_keys unfrozen isProp held.len_le (Or.inl rfl)

/-- Another buffer content and length, with the same properties. -/
theorem Held.setBuffer
    (held : Held level object) (unfrozen : level ≠ .frozen) {data : Nat → Option Value} {len : Nat}
    (len_le : len ≤ uint32Max)
    (added : ∀ i, i < len → (slot { object with data, len } i).isSome = true →
      owns object (.index i) = true)
    (removed : level = .sealed → ∀ i, i < object.len → (slot object i).isSome = true →
      owns { object with data, len } (.index i) = true) :
    Kept level object { object with data, len } := by
  refine Kept.of_keys unfrozen (held.update unfrozen len_le held.array rfl rfl) rfl
    (fun dense => ⟨dense, rfl⟩) ?_ ?_
  · exact fun _ isOwn => owns_mono isOwn rfl added (fun _ isProp => isProp)
  · exact fun isSealed _ isOwn => owns_mono isOwn rfl (removed isSealed) (fun _ isProp => isProp)

theorem denseSet_outside (outside : ¬ (object.denseBuf = true ∧ i < object.cap))
    (value : Option Value) :
    object.denseSet i value = object := by
  unfold denseSet
  rw [if_neg (by simpa using outside)]

/-- A store to the buffer: no index is new, and under a sealing level none is emptied. -/
theorem Held.denseSet
    (held : Held level object) (unfrozen : level ≠ .frozen) {i : Nat} {value : Option Value}
    (isOwn : value.isSome = true → object.denseBuf = true → i < object.cap →
      owns object (.index i) = true)
    (present : level = .sealed → value.isSome = true) :
    Kept level object (object.denseSet i value) := by
  by_cases inside : object.denseBuf = true ∧ i < object.cap
  · obtain ⟨dense, inside⟩ := inside
    have slots := slot_update_data dense inside value
    rw [denseSet_eq dense inside]
    refine held.setBuffer unfrozen held.len_le ?_ ?_
    · intro j below isSlot
      rw [slots] at isSlot
      by_cases same : j = i
      · rw [same, update_self] at isSlot
        exact same ▸ isOwn isSlot dense inside
      · rw [update_of_ne same] at isSlot
        exact owns_of_slot below isSlot
    · intro isSealed j below isSlot
      refine owns_of_slot below ?_
      rw [slots]
      by_cases same : j = i
      · rw [same, update_self]
        exact present isSealed
      · rw [update_of_ne same]
        exact isSlot
  · exact Kept.of_eq held (denseSet_outside inside value)

/-- A length under which the same elements of the buffer are seen. -/
theorem Held.arrayLenSet
    (held : Held level object) (unfrozen : level ≠ .frozen) (isArray : object.isArray = true)
    {newLen : Nat} (added : ∀ i, (slot object i).isSome = true → i < newLen → i < object.len)
    (removed : level = .sealed →
      ∀ i, (slot object i).isSome = true → i < object.len → i < newLen) :
    Kept level object (object.arrayLenSet newLen) := by
  have len_le := held.len_le
  rw [arrayLenSet_eq isArray]
  refine held.setBuffer unfrozen (Nat.min_le_right _ _) ?_ ?_
  · intro i below isSlot
    exact owns_of_slot (added i isSlot (by omega)) isSlot
  · intro isSealed i below isSlot
    exact owns_of_slot (lt_min (removed isSealed i isSlot below) (below.trans_le len_le)) isSlot

/-- The length that an array has. -/
theorem Held.arrayLenSet_self (held : Held level object) (isArray : object.isArray = true) :
    object.arrayLenSet object.len = object := by
  rw [arrayLenSet_eq isArray, Nat.min_eq_left held.len_le]

end Stores

section Assignments

variable {level : Level} {object : Object}

theorem writable_of_assignedBy
    {property : Property} (proceeds : assignedBy property strict = none) :
    property.writable = true := by
  unfold assignedBy at proceeds
  split at proceeds
  · cases proceeds
  · cases proceeds
  · split_ifs at proceeds with writable
    exact writable

section

variable (held : Held level object) (key : Key) (value : Value) (strict : Bool)
include held key value strict

/-- An assignment can only be refused or create a property that is refused. -/
theorem Held.createNew : (object.createNew key value strict).2 = object := by
  obtain ⟨message, refused⟩ := held.checkObjectExtensibility strict
  unfold Object.createNew
  rw [refused]

/-- What an assignment through the shape does. -/
theorem Held.setpropOrdinary (inherited : Option Property)
    (isBelow : ∀ i, key = .index i → object.isArray = true → i < object.len) :
    (object.setpropOrdinary key value strict inherited).2 = object ∨
      ∃ property, object.props key = some property ∧ property.writable = true ∧
        (object.setpropOrdinary key value strict inherited).2 =
          object.propStore key value := by
  unfold Object.setpropOrdinary
  cases isProp : object.props key with
  | none =>
    refine Or.inl ?_
    rcases inherited with _ | property
    · exact held.createNew key value strict
    · cases proceeds : assignedBy property strict with
      | some result => simp only [proceeds]
      | none =>
        simp only [proceeds]
        exact held.createNew key value strict
  | some property =>
    cases proceeds : assignedBy property strict with
    | some result =>
      refine Or.inl ?_
      simp only [proceeds]
    | none =>
      refine Or.inr ⟨property, rfl, writable_of_assignedBy proceeds, ?_⟩
      simp only [proceeds]
      -- The index is below the length, which stays as it is.
      cases key with
      | index i =>
        have stored : (object.propStore (.index i) value).isArray = object.isArray ∧
            (object.propStore (.index i) value).len = object.len := by
          unfold Object.propStore
          rw [isProp]
          exact ⟨rfl, rfl⟩
        cases isArray : object.isArray with
        | false => simp [arrayDefineOrSetIndex, stored.1, isArray]
        | true =>
          have below := isBelow i rfl isArray
          simp only [arrayDefineOrSetIndex]
          simp [getArrayLength, stored.1, isArray]
          omega
      | length | name text | symbol id => rfl

/-- What an assignment to a symbol does. -/
theorem Held.setpropSymbol (inherited : Option Property) :
    (object.setpropSymbol key value strict inherited).2 = object ∨
      ∃ property, object.props key = some property ∧ property.writable = true ∧
        (object.setpropSymbol key value strict inherited).2 =
          object.propStore key value := by
  unfold Object.setpropSymbol
  simp only
  split
  · exact Or.inl rfl
  · rename_i property _ isProp
    cases writable : property.writable with
    | true => exact Or.inr ⟨property, isProp, writable, rfl⟩
    | false => exact Or.inl rfl
  · exact Or.inl (held.createNew key value strict)

/-- What an assignment does under any level: nothing, a store to the buffer
where it has an iterable slot, or a store to a writable property. -/
theorem Held.setprop
    (inherited : Option Property) (notLength : object.isArray = true → key ≠ .length) :
    (object.setprop key value strict inherited).2 = object ∨
      (∃ i, key = .index i ∧ object.isArray = true ∧ object.denseBuf = true ∧
        i < object.denseIterableLength ∧ object.frozen = false ∧
        (object.setprop key value strict inherited).2 =
          object.denseSet i (some value)) ∨
      ∃ property, object.props key = some property ∧ property.writable = true ∧
        (object.setprop key value strict inherited).2 =
          object.propStore key value := by
  have ordinary : ∀ (isBelow : ∀ i, key = .index i → object.isArray = true → i < object.len),
      (object.setpropOrdinary key value strict inherited).2 = object ∨ _ :=
    held.setpropOrdinary key value strict inherited
  obtain ⟨message, refused⟩ := held.checkObjectExtensibility strict
  unfold Object.setprop
  split
  · rename_i i isArray
    cases handled : object.setpropArrayFast i value strict with
    | none =>
      have below : i < object.getArrayLength := by
        unfold setpropArrayFast at handled
        split_ifs at handled with dense frozen limit below
        · rw [refused] at handled
          cases handled
        · exact below
        · rw [refused] at handled
          cases handled
      rw [getArrayLength, if_pos isArray] at below
      refine (ordinary ?_).imp_right Or.inr
      intro j isIndex _
      cases isIndex
      exact below
    | some result =>
      unfold setpropArrayFast at handled
      split_ifs at handled with dense frozen limit below
      · cases handled
        exact Or.inl rfl
      · cases handled
        simp only [and_eq_true, decide_eq_true_eq] at dense
        exact Or.inr (Or.inl ⟨i, rfl, isArray, dense.1, dense.2, eq_false_iff.mpr frozen, rfl⟩)
      · rw [refused] at handled
        cases handled
        exact Or.inl rfl
      · rw [refused] at handled
        cases handled
        exact Or.inl rfl
  · rename_i isArray
    exact absurd rfl (notLength isArray)
  · exact (held.setpropSymbol _ value strict inherited).imp_right Or.inr
  · rename_i notIndex _
    refine (ordinary ?_).imp_right Or.inr
    intro i isIndex isArray
    exact (notIndex i isArray isIndex).elim

end

section

variable (held : Held level object)
include held

/-- An assignment to a key other than the length of an array. -/
theorem Held.setprop_kept {key : Key} (value : Value) (strict : Bool) (inherited : Option Property)
    (notLength : object.isArray = true → key ≠ .length)
    (isOwn : ∀ i, key = .index i → level = .frozen ∨ object.denseBuf = false ∨
      object.denseIterableLength ≤ i ∨ owns object (.index i) = true) :
    Kept level object (object.setprop key value strict inherited).2 := by
  rcases held.setprop key value strict inherited notLength with
    same | ⟨i, isIndex, _, dense, inside, unfrozen, stored⟩ | ⟨property, isProp, writable, stored⟩
  · exact Kept.of_eq held same
  · rw [stored]
    have levelUnfrozen : level ≠ .frozen := by
      rintro rfl
      rw [held.enforced.1] at unfrozen
      cases unfrozen
    refine held.denseSet levelUnfrozen (fun _ _ _ => ?_) (fun _ => rfl)
    rcases isOwn i isIndex with frozen | sparse | outside | isOwn
    · exact absurd frozen levelUnfrozen
    · rw [dense] at sparse
      cases sparse
    · omega
    · exact isOwn
  · rw [stored]
    exact held.propStore isProp writable value

/-- An allowed length of an array. -/
theorem Held.changeLength
    (isArray : object.isArray = true) {newLen : Nat} (meets : LengthMeets level object newLen) :
    Kept level object (object.changeLength newLen) := by
  have len_le := held.len_le
  have slot_cleared := slot_changeLength isArray newLen
  by_cases isFrozen : level = .frozen
  · subst isFrozen
    refine Kept.of_eq held ?_
    have same : newLen = object.len := meets
    rw [same, changeLength_eq isArray, Nat.min_eq_left len_le]
    have unchanged : (fun j => if object.denseBuf = true ∧ object.len ≤ j ∧
        j < min object.len object.cap then none else object.data j) = object.data := by
      funext j
      rw [if_neg (by omega)]
    rw [unchanged]
  · rw [changeLength_eq isArray] at slot_cleared ⊢
    refine held.setBuffer isFrozen (Nat.min_le_right _ _) ?_ ?_
    · intro i below isSlot
      rw [slot_cleared] at isSlot
      have isBelow : i < newLen := by omega
      rw [if_neg (by omega)] at isSlot
      have inLen : i < object.len := by
        cases level with
        | frozen => exact absurd rfl isFrozen
        | sealed => exact (meets i isSlot).mp isBelow
        | inextensible => exact meets i isSlot isBelow
      exact owns_of_slot inLen isSlot
    · intro isSealed i below isSlot
      subst isSealed
      have isBelow := (meets i isSlot).mpr below
      refine owns_of_slot (lt_min isBelow (below.trans_le len_le)) ?_
      rw [slot_cleared, if_neg (by omega)]
      exact isSlot

/-- Every assignment that meets its condition. -/
theorem Held.assign
    {key : Key} {value : Value} (meets : AssignMeets level object key value) (strict : Bool)
    (inherited : Option Property) :
    Kept level object (object.setprop key value strict inherited).2 := by
  by_cases isLength : object.isArray = true ∧ key = .length
  · obtain ⟨isArray, rfl⟩ := isLength
    have allowed := meets isArray
    unfold Object.setprop
    simp only [isArray]
    cases valid : validArrayLength value with
    | none => exact Kept.refl held
    | some newLen => exact held.changeLength isArray (allowed newLen valid)
  · refine held.setprop_kept value strict inherited
      (fun isArray isKey => isLength ⟨isArray, isKey⟩) ?_
    rintro i rfl
    cases isArray : object.isArray with
    | false => exact Or.inr (Or.inl (held.sparse isArray))
    | true => exact meets isArray

/-- An assignment through the cache. -/
theorem Held.putFieldCached
    {key : Key} {value : Value} (meets : AssignMeets level object key value) (strict : Bool)
    (inherited : Option Property) (ownHit addHit : Bool) :
    Kept level object (putFieldCached object key value strict inherited ownHit addHit).2 := by
  have closed : (!object.frozen && !object.isSealed && object.extensible) = false := by
    have enforced := held.enforced
    cases level with
    | frozen => simp [enforced.1]
    | sealed =>
      have isSealed : object.isSealed = true := enforced
      simp [isSealed]
    | inextensible =>
      have extensible : object.extensible = false := enforced
      simp [extensible]
  have slow := held.assign meets strict inherited
  unfold Integrity.putFieldCached
  cases isProp : object.props key with
  | none =>
    split_ifs with added
    · simp only [and_eq_true] at added
      obtain ⟨⟨⟨⟨⟨⟨_, unfrozen⟩, unsealed⟩, extensible⟩, _⟩, _⟩, _⟩ := added
      rw [unfrozen, unsealed, extensible] at closed
      cases closed
    · exact slow
  | some property =>
    simp only [Option.isNone_some, Bool.and_false, Bool.false_eq_true, if_false]
    split_ifs with isData
    · simp only [and_eq_true] at isData
      exact held.propStore isProp isData.1.2 value
    · exact slow

end

end Assignments

section Deletions

variable {level : Level} {object : Object}

/-- A property erased, where properties may be removed. -/
theorem Held.erase (held : Held .inextensible object) (key : Key) :
    Kept .inextensible object { object with props := Function.update object.props key none } := by
  refine Kept.of_keys nofun (held.update nofun held.len_le held.array rfl rfl) rfl
    (fun dense => ⟨dense, rfl⟩) ?_ nofun
  refine fun _ isOwn => owns_mono isOwn rfl
    (fun _ below isSlot => owns_of_slot below isSlot) (fun other isProp => ?_)
  by_cases same : other = key
  · simp [same] at isProp
  · simpa [update_of_ne same] using isProp

/-- Every deletion. -/
theorem Held.deleteProp (held : Held level object) (key : Key) (strict : Bool) :
    Kept level object (object.deleteProp key strict).2 := by
  have enforced := held.enforced
  cases level with
  | frozen =>
    refine Kept.of_eq held ?_
    unfold deleteProp
    rw [if_pos enforced.1]
  | sealed =>
    refine Kept.of_eq held ?_
    have isSealed : object.isSealed = true := enforced
    unfold deleteProp
    split_ifs
    · rfl
    · rfl
  | inextensible =>
    have cleared : Kept .inextensible object (object.deleteDense key) := by
      cases key with
      | index i =>
        simp only [deleteDense]
        split_ifs
        · exact held.denseSet (by simp) (by simp) (by simp)
        · exact Kept.refl held
      | length | name text | symbol id => exact Kept.refl held
    unfold deleteProp
    split_ifs
    · exact Kept.refl held
    · exact Kept.refl held
    · exact Kept.refl held
    · simp only
      split
      · exact cleared
      · split_ifs
        · exact cleared.trans (cleared.held.erase key)
        · exact cleared

end Deletions

end AntRuntime.Integrity
