import AntRuntime.Integrity.Loops

/-!
# Mutators under an integrity level

Each mutator that meets its condition keeps the level. On an object without a
buffer it is made of checked steps, apart from the length of an array; in the
buffer nothing is checked, and the condition says why nothing is broken.
-/

namespace AntRuntime.Integrity

open Objects Arrays List Function Option Bool World

variable {σ : Type} {level : Level} {env : Environment σ} {world : World σ}
variable {object : Object}

section Lengths

theorem getArrayLength_eq (isArray : object.isArray = true) : object.getArrayLength = object.len :=
  if_pos isArray

section

variable (held : Held level object)
include held

theorem isArray_of_denseBuf (dense : object.denseBuf = true) : object.isArray = true := by
  cases isArray : object.isArray with
  | true => rfl
  | false =>
    rw [held.sparse isArray] at dense
    cases dense

theorem denseIterableLength_eq (dense : object.denseBuf = true) :
    object.denseIterableLength = min object.cap object.len := by
  rw [Object.denseIterableLength, if_pos dense, getArrayLength_eq (isArray_of_denseBuf held dense)]

/-- Without a buffer the length of an array can be anything, as far as keys are
concerned. -/
theorem Held.arrayLenSet_sparse (unfrozen : level ≠ .frozen) (sparse : object.denseBuf = false)
    (isArray : object.isArray = true) (newLen : Nat) :
    Kept level object (object.arrayLenSet newLen) := by
  have vacant : ∀ i, ¬ (slot object i).isSome = true := by
    intro i
    rw [slot_eq_none_of_not_denseBuf sparse]
    exact false_ne_true
  exact held.arrayLenSet unfrozen isArray (fun i isSlot => absurd isSlot (vacant i))
    (fun _ i isSlot => absurd isSlot (vacant i))

/-- The length that a mutator of an object that is not an array stores
unchecked. -/
theorem Held.arrayLenSet_ordinary (ordinary : object.isArray = false) {property : Property}
    (isProp : object.props .length = some property) {newLen : Nat}
    (same : level = .frozen → property.isAccessor = false ∧ property.value = .number newLen) :
    Kept level object (object.arrayLenSet newLen) := by
  have stored : object.arrayLenSet newLen =
      { object with
        props := Function.update object.props .length
          (some { property with value := .number newLen })
        len := object.len } := by
    simp [Object.arrayLenSet, ordinary, isProp, Object.propStore]
  rw [stored]
  by_cases isFrozen : level = .frozen
  · subst isFrozen
    obtain ⟨readonly, fixed⟩ := held.enforced.2 _ _ isProp
    obtain ⟨isData, value_eq⟩ := same rfl
    refine held.replace_frozen isProp ?_ readonly fixed
    rw [← value_eq]
  · exact held.replace_keys isFrozen isProp held.len_le (Or.inl rfl)

end

end Lengths

section Packed

/-- Stores of values in a packed buffer keep it packed. -/
theorem packed_denseSet (packed : Packed object) (i : Nat) (value : Value) :
    Packed (object.denseSet i (some value)) := by
  by_cases inside : object.denseBuf = true ∧ i < object.cap
  · obtain ⟨dense, inside⟩ := inside
    rw [denseSet_eq dense inside]
    intro j below
    rw [slot_update_data dense inside]
    by_cases same : j = i
    · rw [same, update_self]
      rfl
    · rw [update_of_ne same]
      exact packed j below
  · rw [denseSet_outside inside]
    exact packed

theorem denseSet_len (object : Object) (i : Nat) (slot : Option Value) :
    (object.denseSet i slot).len = object.len := by
  unfold Object.denseSet
  split_ifs <;> rfl

theorem denseSet_denseBuf (object : Object) (i : Nat) (slot : Option Value) :
    (object.denseSet i slot).denseBuf = object.denseBuf := by
  unfold Object.denseSet
  split_ifs <;> rfl

section

variable (held : Held level object) (dense : object.denseBuf = true) (packed : Packed object)
  (below : i < object.len)
include held dense packed below

theorem owns_of_packed (inside : i < object.cap) : owns object (.index i) = true :=
  owns_of_slot below (packed i (by rw [denseIterableLength_eq held dense]; omega))

/-- A slot of a packed buffer below the length has a value; behind the buffer
`dense_get` gives undefined. -/
theorem denseGet_of_packed : ∃ value, object.denseGet i = some value := by
  by_cases inside : i < object.cap
  · rw [denseGet_eq dense inside]
    exact isSome_iff_exists.mp (packed i (by rw [denseIterableLength_eq held dense]; omega))
  · refine ⟨.undefined, ?_⟩
    unfold Object.denseGet
    rw [if_neg (by simp [inside])]

end

/-- Values stored at own indices, whatever the buffer is. -/
theorem Held.setSlots_owned (held : Held .sealed object) (start : Nat) (values : List Value)
    (isOwn : ∀ i, start ≤ i → i < start + values.length → i < object.cap →
      object.denseBuf = true → owns object (.index i) = true) :
    Kept .sealed object (object.setSlots start (values.map some)) := by
  induction values generalizing object start with
  | nil => exact Kept.refl held
  | cons value rest ih =>
    rw [length_cons] at isOwn
    have stored : Kept .sealed object (object.denseSet start (some value)) :=
      held.denseSet nofun
        (fun _ dense inside => isOwn start (by omega) (by omega) inside dense) (fun _ => rfl)
    refine stored.trans (ih stored.held (start + 1) ?_)
    intro i above below inside dense
    obtain ⟨wasDense, cap_eq⟩ := stored.dense dense
    rw [stored.preserved (.index i)]
    exact isOwn i (by omega) (by omega) (by omega) wasDense

/-- A packed object after values were stored below its length. -/
structure Refilled (level : Level) (object current : Object) : Prop where
  kept : Kept level object current
  packed : Packed current
  len_eq : current.len = object.len
  denseBuf_eq : current.denseBuf = object.denseBuf

/-- An object whose elements are all there is filled as it stands. -/
theorem Held.refilled (held : Held level object) (packed : Packed object) :
    Refilled level object object :=
  ⟨Kept.refl held, packed, rfl, rfl⟩

section

variable {current : Object} (refilled : Refilled level object current)
  (unfrozen : level ≠ .frozen)
include refilled unfrozen

/-- An element below the length may be stored, the others staying there. -/
theorem Refilled.denseSet (below : i < object.len) (value : Value) :
    Refilled level object (current.denseSet i (some value)) where
  kept := refilled.kept.trans (refilled.kept.held.denseSet unfrozen
    (fun _ dense => owns_of_packed refilled.kept.held dense refilled.packed
      (refilled.len_eq.symm ▸ below)) fun _ => rfl)
  packed := packed_denseSet refilled.packed i value
  len_eq := (denseSet_len _ _ _).trans refilled.len_eq
  denseBuf_eq := (denseSet_denseBuf _ _ _).trans refilled.denseBuf_eq

/-- A row of elements below the length may be stored. -/
theorem Refilled.setSlots
    (start : Nat) (values : List Value) (within : start + values.length ≤ object.len) :
    Refilled level object (current.setSlots start (values.map some)) := by
  induction values generalizing current start with
  | nil => exact refilled
  | cons value rest ih =>
    rw [length_cons] at within
    exact ih (refilled.denseSet unfrozen (by omega) value) (start + 1) (by omega)

/-- The dense part of `copyWithin` on a packed array. -/
theorem Refilled.copySlots
    (target source : Nat) (order : List Nat) (within : ∀ i ∈ order, target + i < object.len) :
    Refilled level object (current.copySlots target source order) := by
  induction order generalizing current with
  | nil => exact refilled
  | cons i rest ih =>
    exact ih (refilled.denseSet unfrozen (within i (by simp)) _)
      fun j isIn => within j (by simp [isIn])

/-- The dense part of `reverse` on a packed array. -/
theorem Refilled.reverseDense
    (dense : object.denseBuf = true) (lower count : Nat) (within : lower + count ≤ object.len / 2) :
    Refilled level object (current.reverseDense object.len lower count) := by
  induction count generalizing current lower with
  | zero => exact refilled
  | succ count ih =>
    have read (i : Nat) (below : i < object.len) : ∃ value, current.denseGet i = some value :=
      denseGet_of_packed refilled.kept.held (refilled.denseBuf_eq.trans dense) refilled.packed
        (refilled.len_eq.symm ▸ below)
    obtain ⟨first, first_eq⟩ := read lower (by omega)
    obtain ⟨last, last_eq⟩ := read (object.len - 1 - lower) (by omega)
    rw [Object.reverseDense, first_eq, last_eq]
    exact ih ((refilled.denseSet unfrozen (by omega) last).denseSet unfrozen (by omega) first)
      (lower + 1) (by omega)

end

/-- `fill` in a packed buffer. -/
theorem Refilled.fillLoop
    (refilled : Refilled level object world.object) (unfrozen : level ≠ .frozen)
    (dense : object.denseBuf = true) (strict : Bool) (value : Value) (start count : Nat)
    (inLen : start + count ≤ object.len) (inCap : start + count ≤ object.cap) :
    Refilled level object (world.fillLoop env strict value start count).object := by
  induction count generalizing world start with
  | zero => exact refilled
  | succ count ih =>
    have stillDense := refilled.denseBuf_eq.trans dense
    have cap_eq := (refilled.kept.dense stillDense).2
    have len_eq := refilled.len_eq
    have inside : start < world.object.denseIterableLength := by
      rw [denseIterableLength_eq refilled.kept.held stillDense]
      omega
    have stored_eq : world.arrSet env start value strict =
        { world with object := world.object.denseSet start (some value) } := by
      simp [arrSet, Object.arrSetDense, stillDense, inside]
    rw [fillLoop, stored_eq]
    refine @ih ⟨world.object.denseSet start (some value), world.outside⟩
      (refilled.denseSet unfrozen (by omega) value) (start + 1) (by omega) (by omega)

/-- Reads from a packed buffer run no user code. -/
theorem arrGetAll_packed (held : Held level world.object) (dense : world.object.denseBuf = true)
    (packed : Packed world.object) (start count : Nat)
    (inside : start + count ≤ world.object.denseIterableLength) :
    (world.arrGetAll env start count).2 = world := by
  induction count generalizing start with
  | zero => rfl
  | succ count ih =>
    have read : (world.arrGet env start).2 = world := by
      have isSlot := packed start (by omega)
      have lengths := denseIterableLength_eq held dense
      have isArray := isArray_of_denseBuf held dense
      rw [slot_eq_data dense (by omega)] at isSlot
      obtain ⟨value, isValue⟩ := isSome_iff_exists.mp isSlot
      have isFast : world.object.fastArray = true := by
        simp only [Object.denseBuf, and_eq_true] at dense
        exact dense.1
      have inLen : start < world.object.len := by omega
      have inCap : start < world.object.cap := by omega
      unfold arrGet Object.arrGet
      simp [isArray, isFast, inLen, inCap, isValue]
    rw [arrGetAll]
    simp only [read]
    exact ih (start + 1) (by omega)

end Packed

section Ends

/-- An object that meets the condition of `push` is kept by it. -/
theorem Held.push
    (held : Held level object) {args : List Value} (meets : PushMeets level object args) :
    Kept level object (object.push args).2 := by
  obtain ⟨rfl, ordinaryLength⟩ := meets
  have pushed : (object.push []).2 = object.arrayLenSet object.getArrayLength := by
    unfold Object.push
    split_ifs <;> rfl
  rw [pushed]
  cases isArray : object.isArray with
  | true =>
    rw [getArrayLength_eq isArray]
    exact Kept.of_eq held (held.arrayLenSet_self isArray)
  | false =>
    obtain ⟨property, isProp, same⟩ := ordinaryLength isArray
    exact held.arrayLenSet_ordinary isArray isProp same

/-- The last slot emptied and the length shortened, where the slot was empty or
elements may be removed. -/
theorem Held.popDense
    (held : Held level object) (unfrozen : level ≠ .frozen) (dense : object.denseBuf = true)
    (positive : 0 < object.len) (vacant : level = .sealed → slot object (object.len - 1) = none) :
    Kept level object ((object.denseSet (object.len - 1) none).arrayLenSet (object.len - 1)) := by
  have isArray := isArray_of_denseBuf held dense
  have len_le := held.len_le
  by_cases inside : object.len - 1 < object.cap
  · have slots := slot_update_data dense inside none
    rw [denseSet_eq dense inside, arrayLenSet_eq (by exact isArray)]
    refine held.setBuffer unfrozen (Nat.min_le_right _ _) ?_ ?_
    · intro i below isSlot
      have isSlot' : (Function.update (slot object) (object.len - 1) none i).isSome =
          true := by
        rw [← slots]
        exact isSlot
      rw [update_of_ne (by omega)] at isSlot'
      exact owns_of_slot (by omega) isSlot'
    · intro isSealed i below isSlot
      have notLast : i ≠ object.len - 1 := by
        rintro rfl
        rw [vacant isSealed] at isSlot
        cases isSlot
      refine owns_of_slot (lt_min (by omega) (by omega)) (Eq.trans ?_ isSlot)
      refine congrArg isSome ((congrFun slots i).trans ?_)
      rw [update_of_ne notLast]
  · rw [denseSet_outside (by simp [inside])]
    refine held.arrayLenSet unfrozen isArray (fun i _ below => by omega) ?_
    intro _ i isSlot below
    obtain ⟨value, isValue⟩ := isSome_iff_exists.mp isSlot
    have := (inside_of_slot isValue).2
    omega

/-- An object that meets the condition of `pop` is kept by it. -/
theorem Held.pop (held : Held level object) (meets : PopMeets level object) :
    Kept level object object.pop.2 := by
  by_cases empty : object.getArrayLength = 0
  · refine Kept.of_eq held ?_
    unfold Object.pop
    rw [if_pos empty]
  have meets := meets.resolve_left empty
  have unfrozen : level ≠ .frozen := by
    rintro rfl
    exact meets
  unfold Object.pop
  simp only
  split_ifs with inBuffer
  · simp only [and_eq_true, decide_eq_true_eq] at inBuffer
    obtain ⟨dense, full⟩ := inBuffer
    have length := getArrayLength_eq (isArray_of_denseBuf held dense)
    rw [length] at empty ⊢
    refine held.popDense unfrozen dense (by omega) ?_
    rintro rfl
    have vacant := meets dense full
    rw [length] at vacant
    exact vacant
  · cases isArray : object.isArray with
    | true =>
      have length := getArrayLength_eq isArray
      refine held.arrayLenSet unfrozen isArray (fun i _ below => by omega) ?_
      intro _ i isSlot below
      obtain ⟨value, isValue⟩ := isSome_iff_exists.mp isSlot
      obtain ⟨dense, inside⟩ := inside_of_slot isValue
      have iterable := denseIterableLength_eq held dense
      rw [dense] at inBuffer
      simp only [Bool.true_and, decide_eq_true_eq] at inBuffer
      omega
    | false =>
      cases isProp : object.props .length with
      | none => simp [Object.getArrayLength, isArray, isProp] at empty
      | some property =>
        exact held.arrayLenSet_ordinary isArray isProp (fun frozen => absurd frozen unfrozen)

end Ends

section Moves

/-- The elements of a packed buffer moved down by one, where elements may be
removed. -/
theorem Held.shiftDense (held : Held .inextensible object) (dense : object.denseBuf = true)
    (full : object.len = object.denseIterableLength) (packed : Packed object)
    (positive : 0 < object.len) :
    Kept .inextensible object
      (((object.moveSlots 0 1 (object.len - 1)).denseSet (object.len - 1)
        none).arrayLenSet (object.len - 1)) := by
  have iterable := denseIterableLength_eq held dense
  have isArray := isArray_of_denseBuf held dense
  have movedDense : (object.moveSlots 0 1 (object.len - 1)).denseBuf = true := dense
  have movedInside : object.len - 1 < (object.moveSlots 0 1 (object.len - 1)).cap := by
    show object.len - 1 < object.cap
    omega
  rw [denseSet_eq movedDense movedInside, arrayLenSet_eq (by exact isArray)]
  refine held.setBuffer nofun (Nat.min_le_right _ _) ?_ nofun
  intro i below _
  exact owns_of_packed held dense packed (by omega) (by omega)

/-- Nothing in front of the elements of the buffer. -/
theorem Held.unshiftDense_nil (held : Held level object) (dense : object.denseBuf = true)
    (full : object.getArrayLength = object.denseIterableLength) :
    (unshiftDense object object.getArrayLength []).2 = object := by
  have isArray := isArray_of_denseBuf held dense
  have iterable := denseIterableLength_eq held dense
  rw [getArrayLength_eq isArray] at full ⊢
  have noGrowth : ¬ object.cap < object.len := by omega
  have unmoved : object.moveSlots 0 0 object.len = object := by
    unfold Object.moveSlots
    have same : (fun i => if 0 ≤ i ∧ i < 0 + object.len then object.data (i - 0 + 0)
        else object.data i) = object.data := by
      funext i
      simp
    rw [same]
  unfold unshiftDense
  simp only [length_nil, Nat.add_zero, noGrowth, if_false, unmoved]
  exact held.arrayLenSet_self isArray

variable (trusted : Trusted level env)

include trusted

/-- The length at the end of a mutator, on an object without a buffer or with
the length it had. -/
theorem Trusted.setLength (kept : Kept level object world.object)
    (meets : (level = .frozen ∧ (object.isArray = true → newLen = object.len)) ∨
      (object.denseBuf = false ∧ (object.isArray = true → level ≠ .frozen)))
    (strict : Bool) :
    Kept level object (world.setLength env newLen strict).object := by
  unfold World.setLength
  split_ifs with isArray
  · have wasArray := kept.isArray.symm.trans isArray
    refine kept.trans ?_
    rcases meets with ⟨rfl, same⟩ | ⟨sparse, unfrozen⟩
    · refine Kept.of_eq kept.held ?_
      rw [lift, same wasArray, ← kept.preserved.1, kept.held.arrayLenSet_self isArray]
    · exact kept.held.arrayLenSet_sparse (unfrozen wasArray) (kept.sparse sparse) isArray newLen
  · exact trusted.setprop kept (fun nowArray => absurd nowArray isArray) strict

variable (held : Held level world.object)

include held

/-- An object that meets the condition of `shift` is kept by it. -/
theorem Trusted.shift (meets : ShiftMeets level world.object) (strict : Bool) :
    Kept level world.object (world.shift env strict).2.object := by
  by_cases empty : world.object.getArrayLength = 0
  · refine Kept.of_eq held ?_
    unfold World.shift
    simp [empty]
  have meets := meets.resolve_left empty
  unfold World.shift
  simp only
  split_ifs with inBuffer
  · simp only [and_eq_true, decide_eq_true_eq] at inBuffer
    obtain ⟨dense, full⟩ := inBuffer
    have isArray := isArray_of_denseBuf held dense
    have meets := meets.resolve_left (by simp [isArray])
    rw [getArrayLength_eq isArray] at empty full ⊢
    cases level with
    | frozen => exact meets.elim
    | sealed => cases dense.symm.trans meets
    | inextensible =>
      have packed := (meets.resolve_left (by simp [dense])).2
      exact held.shiftDense dense full packed (by omega)
  · have checked : world.object.denseBuf = false ∧
        (world.object.isArray = true → level ≠ .frozen) := by
      rcases meets with ordinary | meets
      · exact ⟨held.sparse ordinary, by simp [ordinary]⟩
      · cases level with
        | frozen => exact meets.elim
        | sealed => exact ⟨meets, nofun⟩
        | inextensible =>
          rcases meets with sparse | ⟨full, _⟩
          · exact ⟨sparse, nofun⟩
          · exact ⟨by simpa [full] using inBuffer, nofun⟩
    have moved := trusted.shiftLoop (trusted.arrGet (.refl held) 0) (Or.inr checked.1) strict 1
      (world.object.getArrayLength - 1)
    exact trusted.setLength moved (Or.inr checked) strict

/-- An object that meets the condition of `unshift` is kept by it. -/
theorem Trusted.unshift
    {args : List Value} (meets : UnshiftMeets level world.object args) (strict : Bool) :
    Kept level world.object (world.unshift env args strict).2.object := by
  unfold World.unshift
  simp only
  split_ifs with inBuffer
  · simp only [and_eq_true, decide_eq_true_eq] at inBuffer
    obtain ⟨dense, full⟩ := inBuffer
    have isArray := isArray_of_denseBuf held dense
    have isEmpty : args = [] := by
      have meets := meets.resolve_left (by simp [isArray])
      cases level with
      | frozen => exact meets
      | sealed | inextensible => exact (meets.resolve_left (by simp [dense])).1
    subst isEmpty
    exact Kept.of_eq held (held.unshiftDense_nil dense full)
  · have meets : (level = .frozen ∧ args = []) ∨ (world.object.denseBuf = false ∧
        (world.object.isArray = true → level ≠ .frozen)) := by
      rcases meets with ordinary | meets
      · exact Or.inr ⟨held.sparse ordinary, by simp [ordinary]⟩
      · cases level with
        | frozen => exact Or.inl ⟨rfl, meets⟩
        | sealed | inextensible =>
          rcases meets with sparse | ⟨_, full⟩
          · exact Or.inr ⟨sparse, nofun⟩
          · exact Or.inr ⟨by simpa [full] using inBuffer, nofun⟩
    have checked : Checked level world.object := meets.imp And.left And.left
    have moved := trusted.unshiftLoop (.refl held) checked strict args.length
      world.object.getArrayLength
    have stored := trusted.setpropAll moved checked strict 0 args
    refine trusted.setLength stored (meets.imp_left ?_) strict
    rintro ⟨isFrozen, rfl⟩
    exact ⟨isFrozen, getArrayLength_eq⟩

end Moves

section InPlace

variable {comparator : Option Nat} {args : List Value}

/-- A mutator that has something to do in the buffer finds it packed. -/
theorem InPlaceMeets.packed {idle : Prop} (meets : InPlaceMeets level object idle) (busy : ¬ idle)
    (dense : object.denseBuf = true) :
    level ≠ .frozen ∧ Packed object :=
  (meets.resolve_left busy).resolve_left (by simp [dense])

/-- The buffer holds as many values as the array is long: an empty slot counts
as undefined. -/
theorem sortDense_length (object : Object) (len : Nat) :
    (sortDense object len).1.length + (sortDense object len).2 = len := by
  unfold sortDense
  rw [Nat.add_comm, count_add_length_filter, length_map, length_range]

/-- Sorting changes the order of the values, not their number. -/
theorem sortValues_length (comparator : Option Nat) (values : List Value) (world : World σ) :
    (world.sortValues env comparator values).1.length = values.length := by
  unfold sortValues
  cases comparator with
  | some f => exact (Sorting.mergeSort_perm _ _ _).length_eq
  | none =>
    simp only [length_map]
    rw [(Sorting.mergeSort_perm _ _ _).length_eq, length_map]

variable (trusted : Trusted level env) (held : Held level world.object)

include trusted held

/-- An object that meets the condition of `reverse` is kept by it. -/
theorem Trusted.reverse
    (meets : InPlaceMeets level world.object (world.object.getArrayLength ≤ 1)) (strict : Bool) :
    Kept level world.object (world.reverse env strict).object := by
  unfold World.reverse
  simp only
  split_ifs with short dense
  · exact Kept.refl held
  · obtain ⟨unfrozen, packed⟩ := meets.packed short dense
    rw [getArrayLength_eq (isArray_of_denseBuf held dense)]
    exact ((held.refilled packed).reverseDense unfrozen dense 0 _ (by omega)).kept
  · exact trusted.reverseLoop (.refl held) (eq_false_iff.mpr dense) strict _ _ _

/-- An object that meets the condition of `fill` is kept by it. -/
theorem Trusted.fill (meets : FillMeets level world.object args) (strict : Bool) :
    Kept level world.object (world.fill env args strict).object := by
  have inLen : (fillRange world.object.getArrayLength args).2 ≤
      world.object.getArrayLength := Nat.min_le_right _ _
  obtain ⟨meets, inCap⟩ := meets
  unfold World.fill
  simp only
  by_cases idle : (fillRange world.object.getArrayLength args).2 ≤
      (fillRange world.object.getArrayLength args).1
  · rw [Nat.sub_eq_zero_of_le idle]
    exact Kept.refl held
  · cases dense : world.object.denseBuf with
    | false => exact trusted.fillLoop (.refl held) dense strict _ _ _
    | true =>
      obtain ⟨unfrozen, packed⟩ := meets.packed idle dense
      have inCap := inCap dense (by omega)
      rw [getArrayLength_eq (isArray_of_denseBuf held dense)] at *
      exact ((held.refilled packed).fillLoop unfrozen dense strict _ _ _ (by omega) (by omega)).kept

/-- An object that meets the condition of `copyWithin` is kept by it. -/
theorem Trusted.copyWithin
    (meets : InPlaceMeets level world.object
      ((copyRange world.object.getArrayLength args).2.2 = 0))
    (strict : Bool) :
    Kept level world.object (world.copyWithin env args strict).2.object := by
  have inLen : (copyRange world.object.getArrayLength args).2.2 ≤
      world.object.getArrayLength -
        (copyRange world.object.getArrayLength args).1 := Nat.min_le_right _ _
  unfold World.copyWithin
  generalize copyRange world.object.getArrayLength args = range at meets inLen ⊢
  rcases range with ⟨target, start, count⟩
  simp only at meets inLen ⊢
  have copied (busy : ¬ count = 0) (dense : world.object.denseBuf = true) (order : List Nat)
      (inRange : ∀ i ∈ order, i < count) :
      Kept level world.object (world.object.copySlots target start order) := by
    obtain ⟨unfrozen, packed⟩ := meets.packed busy dense
    rw [getArrayLength_eq (isArray_of_denseBuf held dense)] at inLen
    refine ((held.refilled packed).copySlots unfrozen target start order fun i isIn => ?_).kept
    have := inRange i isIn
    omega
  split_ifs with idle dense
  · exact Kept.refl held
  · exact copied idle dense _ (by simp)
  · exact copied idle dense _ (by simp)
  · exact trusted.copyLoop (.refl held) (Or.inr (eq_false_iff.mpr dense)) strict _ _

/-- What is sorted are the same elements as before, and only a comparator
changes the object. -/
theorem Trusted.sortFew {values : List Value} {result : List Value × World σ}
    (result_eq : (if values.length ≤ 1 then (values, world)
      else world.sortValues env comparator values) = result) :
    Kept level world.object result.2.object ∧ result.1.length = values.length ∧
      (comparator = none → result.2.object = world.object) := by
  subst result_eq
  split_ifs
  · exact ⟨Kept.refl held, rfl, fun _ => rfl⟩
  · refine ⟨trusted.sortValues held comparator values,
      sortValues_length comparator values world, ?_⟩
    rintro rfl
    rw [sortValues_none]

/-- An object that meets the condition of `sort` is kept by it. -/
theorem Trusted.sort (meets : SortMeets level world.object comparator) (strict : Bool) :
    Kept level world.object (world.sort env comparator strict).2.object := by
  obtain ⟨meets, noComparator⟩ := meets
  by_cases empty : world.object.getArrayLength = 0
  · refine Kept.of_eq held ?_
    unfold World.sort
    rw [if_pos empty]
  unfold World.sort
  simp only [empty]
  cases dense : world.object.denseBuf with
  | false =>
    simp only [false_eq_true, if_false]
    have gathered := trusted.sortGather (.refl held) 0 world.object.getArrayLength
    generalize world.sortGather env 0 world.object.getArrayLength = found
      at gathered ⊢
    rcases found with ⟨⟨values, undefs⟩, afterGather⟩
    generalize result_eq : (if values.length ≤ 1 then (values, afterGather)
      else afterGather.sortValues env comparator values) = result
    have sorted := gathered.trans (trusted.sortFew gathered.held result_eq).1
    rcases result with ⟨result, afterSort⟩
    have stored := trusted.arrSetAll sorted dense strict 0 (result ++ replicate undefs .undefined)
    exact stored.arrDelAll dense strict _ _
  | true =>
    obtain ⟨unfrozen, packed⟩ := meets.packed empty dense
    have isArray := isArray_of_denseBuf held dense
    have size := sortDense_length world.object world.object.getArrayLength
    have length := getArrayLength_eq isArray
    simp only [if_true]
    generalize sortDense world.object world.object.getArrayLength = found
      at size ⊢
    rcases found with ⟨values, undefs⟩
    simp only at size ⊢
    generalize result_eq : (if values.length ≤ 1 then (values, world)
      else world.sortValues env comparator values) = result
    obtain ⟨sorted, sortedSize, unchanged⟩ := trusted.sortFew held result_eq
    rcases result with ⟨result, after⟩
    simp only at sorted sortedSize unchanged ⊢
    unfold sortWriteback
    have whole : (result ++ replicate undefs Value.undefined).length =
        world.object.getArrayLength := by
      rw [length_append, length_replicate]
      omega
    simp only [whole, Nat.sub_self, replicate_zero, append_nil, lift]
    cases level with
    | frozen => exact absurd rfl unfrozen
    | sealed =>
      refine sorted.trans (sorted.held.setSlots_owned 0 _ ?_)
      intro i _ below inside afterDense
      obtain ⟨_, cap_eq⟩ := sorted.dense afterDense
      rw [sorted.preserved (.index i)]
      exact owns_of_packed held dense packed (by omega) (by omega)
    | inextensible =>
      rw [unchanged (noComparator rfl dense)]
      exact ((held.refilled packed).setSlots nofun 0 _ (by omega)).kept

end InPlace

section Splice

variable {items : List Value}

/-- No more elements are deleted than there are from the start on. -/
theorem spliceDeleteCount_le (len : Nat) (args : List Value) :
    spliceStart len args + spliceDeleteCount len args ≤ len := by
  have start_le : spliceStart len args ≤ len := Nat.min_le_right _ _
  unfold spliceDeleteCount
  simp only
  split
  · omega
  · omega
  · split <;> omega

/-- As many elements put into a packed buffer as are taken out. -/
theorem Held.spliceDense (held : Held level object) (isArray : object.isArray = true)
    (within : start + items.length ≤ object.len)
    (unfrozen : items = [] ∨ (level ≠ .frozen ∧ Packed object)) :
    ∃ after,
      World.spliceDense object object.len start items.length items = some after ∧
        Kept level object after := by
  have newLen : object.len - items.length + items.length = object.len := by omega
  refine ⟨(object.setSlots start (items.map some)).arrayLenSet object.len, ?_, ?_⟩
  · unfold World.spliceDense
    simp [map_some, newLen, replicate_zero, Object.setSlots]
  · rcases unfrozen with rfl | ⟨unfrozen, packed⟩
    · exact Kept.of_eq held (held.arrayLenSet_self isArray)
    · obtain ⟨kept, -, len_eq, -⟩ := (held.refilled packed).setSlots unfrozen start items within
      refine kept.trans (Kept.of_eq kept.held ?_)
      rw [← len_eq]
      exact kept.held.arrayLenSet_self (kept.isArray.trans isArray)

variable (trusted : Trusted level env)

include trusted

/-- The moves of `splice`: none, or on an object without a buffer. -/
theorem Trusted.spliceShift (kept : Kept level object world.object)
    (meets : inserted = deleted ∨ object.denseBuf = false) (strict : Bool) (len first : Nat) :
    Kept level object (world.spliceShift env strict len first deleted inserted).object := by
  unfold World.spliceShift
  rcases meets with rfl | sparse
  · simp only [Nat.lt_irrefl]
    exact kept
  · have down := trusted.spliceDown kept sparse strict first (deleted - inserted) (len - first)
    simp only
    split_ifs
    · exact trusted.spliceUp kept sparse strict _ _ _
    · exact down.arrDelAll sparse strict _ _
    · exact down
    · exact kept

variable (held : Held level world.object)

include held

/-- An object that meets the condition of the general path of `splice` is kept by it. -/
theorem Trusted.spliceSlow (meets : (level = .frozen ∧ items.length = deleted ∧
        len - deleted + items.length = world.object.len) ∨
      (world.object.denseBuf = false ∧
        (world.object.isArray = true → level ≠ .frozen)))
    (strict : Bool) :
    Kept level world.object (world.spliceSlow env len start deleted items strict).2.object := by
  have checked : Checked level world.object := meets.imp And.left And.left
  have removed := trusted.spliceRemoved (.refl held) start deleted
  have moved := trusted.spliceShift removed (meets.imp (fun frozen => frozen.2.1) And.left) strict
    len (start + deleted)
  have stored := trusted.setpropAll moved checked strict start items
  exact trusted.setLength stored
    (meets.imp_left fun frozen => ⟨frozen.1, fun _ => frozen.2.2⟩) strict

/-- An object that meets the condition of `splice` is kept by it. -/
theorem Trusted.splice
    {args : List Value} (meets : SpliceMeets level world.object args) (strict : Bool) :
    Kept level world.object (world.splice env args strict).2.object := by
  have within := spliceDeleteCount_le world.object.getArrayLength args
  unfold SpliceMeets at meets
  unfold World.splice
  simp only at meets ⊢
  generalize spliceStart world.object.getArrayLength args = start at within ⊢
  generalize spliceDeleteCount world.object.getArrayLength args = deleted
    at within meets ⊢
  generalize args.drop 2 = items at meets ⊢
  have meets : (level = .frozen ∧ world.object.isArray = true ∧ items.length = deleted ∧
        (world.object.denseBuf = false ∨
          world.object.denseIterableLength ≠ world.object.getArrayLength ∨ items = [])) ∨
      (world.object.denseBuf = false ∧ (world.object.isArray = true → level ≠ .frozen)) ∨
      (level ≠ .frozen ∧ world.object.denseIterableLength = world.object.getArrayLength ∧
        items.length = deleted ∧ Packed world.object) := by
    cases isArray : world.object.isArray with
    | false => exact Or.inr (Or.inl ⟨held.sparse isArray, nofun⟩)
    | true =>
      have meets := meets.resolve_left (by simp [isArray])
      cases level with
      | frozen => exact Or.inl ⟨rfl, rfl, meets⟩
      | sealed | inextensible =>
        exact Or.inr (meets.imp (fun sparse => ⟨sparse, nofun⟩) fun full => ⟨nofun, full⟩)
  split_ifs with inBuffer
  · simp only [and_eq_true, decide_eq_true_eq] at inBuffer
    obtain ⟨dense, full⟩ := inBuffer
    have isArray := isArray_of_denseBuf held dense
    obtain ⟨rfl, unfrozen⟩ : items.length = deleted ∧
        (items = [] ∨ (level ≠ .frozen ∧ Packed world.object)) := by
      rcases meets with ⟨_, _, same, idle⟩ | ⟨sparse, _⟩ | ⟨unfrozen, _, same, packed⟩
      · exact ⟨same, Or.inl ((idle.resolve_left (by simp [dense])).resolve_left
          fun different => different full)⟩
      · cases dense.symm.trans sparse
      · exact ⟨same, Or.inr ⟨unfrozen, packed⟩⟩
    have read : (world.arrGetAll env start items.length).2 = world := by
      rcases unfrozen with rfl | ⟨_, packed⟩
      · rfl
      · exact arrGetAll_packed held dense packed start _ (by omega)
    rw [read]
    rw [getArrayLength_eq isArray] at within ⊢
    obtain ⟨after, spliced, kept⟩ := held.spliceDense isArray within unfrozen
    rw [spliced]
    exact kept
  · refine trusted.spliceSlow held ?_ strict
    rcases meets with ⟨isFrozen, isArray, same, _⟩ | sparse | ⟨unfrozen, full, _⟩
    · refine Or.inl ⟨isFrozen, same, ?_⟩
      rw [← getArrayLength_eq isArray]
      omega
    · exact Or.inr sparse
    · exact Or.inr ⟨by simpa [full] using inBuffer, fun _ => unfrozen⟩

end Splice

end AntRuntime.Integrity
