import AntRuntime.Arrays.Ecma
import Mathlib.Tactic.Ring

/-!
# The two homes of an array element

An element is in the dense buffer or in the shape; the buffer is looked at
first. `view` reads both as one ECMAScript array, and `Sound` says what makes
this reading right. The lemmas describe the loops over the buffer.
-/

namespace AntRuntime.Arrays

open Objects Function Object

/-- A property of the shape as ECMAScript sees it. -/
def toEcma (property : Property) : EcmaProperty :=
  if property.isAccessor then
    .accessor property.getter.join property.setter.join property.enumerable property.configurable
  else
    .data property.value property.writable property.enumerable property.configurable

/-- The element in the buffer, if there is one. -/
def slot (object : Object) (i : Nat) : Option Value :=
  if object.denseBuf && decide (i < object.cap) then object.data i else none

/-- The element at an index, wherever it is. -/
def element (object : Object) (i : Nat) : Option EcmaProperty :=
  match slot object i with
  | some value => some (.plain value)
  | none => (object.props (.index i)).map toEcma

/-- The array that a program sees. -/
def view (object : Object) : EcmaArray :=
  ⟨object.len, true, element object⟩

/-- What the representation of an array promises. -/
structure Sound (object : Object) : Prop where
  isArray : object.isArray = true
  unfrozen : object.frozen = false
  unsealed : object.isSealed = false
  extensible : object.extensible = true
  len_le : object.len ≤ uint32Max
  cap_le : object.cap ≤ uint32Max
  /-- Elements of the buffer are below the length. -/
  slot_lt : ∀ i value, slot object i = some value → i < object.len
  /-- Elements of the shape are below the length. -/
  prop_lt : ∀ i property, object.props (.index i) = some property → i < object.len
  /-- An element of the buffer hides at most a plain property. -/
  shadow : ∀ i value property, slot object i = some value →
    object.props (.index i) = some property → property.isPlain = true
  /-- An accessor is not writable, and without a getter its slot is undefined. -/
  accessor : ∀ i property, object.props (.index i) = some property → property.isAccessor = true →
    property.writable = false ∧ (property.getter = none → property.value = .undefined)

section Slots

variable {object : Object}

theorem slot_eq_data (dense : object.denseBuf = true) (inside : i < object.cap) :
    slot object i = object.data i := by
  simp [slot, dense, inside]

theorem slot_eq_none_of_not_denseBuf (sparse : object.denseBuf = false) : slot object i = none := by
  simp [slot, sparse]

theorem slot_eq_none_of_cap_le (outside : object.cap ≤ i) : slot object i = none := by
  simp [slot, Nat.not_lt.mpr outside]

theorem inside_of_slot {value : Value} (isSlot : slot object i = some value) :
    object.denseBuf = true ∧ i < object.cap := by
  by_cases inside : object.denseBuf && decide (i < object.cap)
  · simpa using inside
  · simp [slot, inside] at isSlot

section

variable (dense : object.denseBuf = true)
include dense

theorem denseGet_eq (inside : i < object.cap) : object.denseGet i = slot object i := by
  simp [denseGet, slot, dense, inside]

theorem denseSet_eq (inside : i < object.cap) (value : Option Value) :
    object.denseSet i value = { object with data := update object.data i value } := by
  simp [denseSet, dense, inside]

theorem slot_update_data (inside : i < object.cap) (value : Option Value) :
    slot { object with data := update object.data i value } = update (slot object) i value := by
  funext j
  by_cases same : j = i
  · subst same
    rw [update_self]
    have stillDense :
        ({ object with data := update object.data j value } :
          Object).denseBuf = true := dense
    rw [slot_eq_data stillDense inside]
    exact update_self ..
  · unfold slot
    simp only [update_of_ne same]
    rfl

/-- The clearing loop empties its range. -/
theorem clearDense_eq (start count : Nat) (within : start + count ≤ object.cap ∨ count = 0) :
    object.clearDense start count =
      { object with
        data := fun j =>
          if start ≤ j ∧ j < start + count then none else object.data j } := by
  induction count generalizing object start with
  | zero =>
    have unchanged :
        (fun j => if start ≤ j ∧ j < start + 0 then none else object.data j) = object.data := by
      funext j
      rw [if_neg (by omega)]
    rw [unchanged]
    rfl
  | succ count ih =>
    have inside : start < object.cap := by omega
    rw [clearDense, denseSet_eq dense inside, ih]
    · congr 1
      funext j
      by_cases same : j = start
      · subst same
        simp
      · simp only [update_of_ne same]
        have range : (start + 1 ≤ j ∧ j < start + 1 + count) ↔
            (start ≤ j ∧ j < start + (count + 1)) := by omega
        simp only [range]
    · exact dense
    · simp only
      omega

/-- Over empty slots the loop before a dense store changes nothing. -/
theorem emptyUndefined_eq (start count : Nat) (within : start + count ≤ object.cap)
    (isEmpty : ∀ j, start ≤ j → slot object j = none) :
    object.emptyUndefined start count = object := by
  induction count generalizing start with
  | zero => rfl
  | succ count ih =>
    have vacant : object.denseGet start = none := by
      rw [denseGet_eq dense (by omega)]
      exact isEmpty start (Nat.le_refl _)
    simp only [emptyUndefined, vacant]
    refine ih (start + 1) (by omega) ?_
    intro j above
    exact isEmpty j (by omega)

end

section

variable (isArray : object.isArray = true) (newLen : Nat)
include isArray

theorem arrayLenSet_eq : object.arrayLenSet newLen = { object with len := min newLen uint32Max } :=
  if_pos isArray

/-- The length of an array changed: the elements of the buffer from the new
length on are gone. -/
theorem changeLength_eq :
    object.changeLength newLen =
      { object with
        data := fun j =>
          if object.denseBuf = true ∧ newLen ≤ j ∧ j < min object.len object.cap then
            none
          else object.data j
        len := min newLen uint32Max } := by
  unfold changeLength
  rw [getArrayLength, if_pos isArray]
  cases dense : object.denseBuf with
  | false => exact arrayLenSet_eq isArray newLen
  | true =>
    simp only [if_true, true_and]
    rw [clearDense_eq dense newLen _ (by omega), arrayLenSet_eq (by exact isArray)]
    congr 1
    funext j
    have range : (newLen ≤ j ∧ j < newLen + (min object.len object.cap - newLen)) ↔
        (newLen ≤ j ∧ j < min object.len object.cap) := by omega
    simp only [range]

theorem slot_changeLength (j : Nat) :
    slot (object.changeLength newLen) j =
      if newLen ≤ j ∧ j < object.len then none else slot object j := by
  rw [changeLength_eq isArray]
  by_cases inside : object.denseBuf = true ∧ j < object.cap
  · obtain ⟨dense, inside⟩ := inside
    rw [slot_eq_data (by exact dense) (by exact inside), slot_eq_data dense inside]
    simp [dense, inside]
  · have vacant {data : Nat → Option Value} {len : Nat} : slot { object with data, len } j =
        none := by
      refine if_neg ?_
      rw [Bool.and_eq_true, decide_eq_true_eq]
      exact inside
    rw [show slot object j = none from vacant, ite_self]
    exact vacant

end

end Slots

section Growth

/-- Enough doublings reach the needed size. -/
theorem le_growLoop {needed rounds cap : Nat} (enough : needed ≤ cap * 2 ^ rounds) :
    needed ≤ growLoop needed rounds cap ∧ cap ≤ growLoop needed rounds cap := by
  induction rounds generalizing cap with
  | zero =>
    simp only [pow_zero, mul_one] at enough
    exact ⟨enough, Nat.le_refl _⟩
  | succ rounds ih =>
    unfold growLoop
    by_cases small : cap < needed
    · rw [if_pos small]
      have deeper : needed ≤ cap * 2 * 2 ^ rounds := by
        calc
          needed ≤ cap * (2 ^ rounds * 2) := enough
          _ = cap * 2 * 2 ^ rounds := by ring
      obtain ⟨reached, larger⟩ := ih deeper
      exact ⟨reached, by omega⟩
    · rw [if_neg small]
      exact ⟨by omega, Nat.le_refl _⟩

/-- Growing the buffer keeps its elements and makes room. -/
theorem denseGrow_spec {object : Object} {needed : Nat} (dense : object.denseBuf = true)
    (capLe : object.cap ≤ uint32Max) (neededLe : needed ≤ uint32Max) :
    ∃ data cap,
      object.denseGrow needed =
        some { object with data, cap, fastArray := true } ∧
      needed ≤ cap ∧ object.cap ≤ cap ∧ cap ≤ uint32Max ∧
      slot { object with data, cap, fastArray := true } = slot object ∧
      ({ object with data, cap, fastArray := true } : Object).denseBuf = true := by
  have positive : object.cap ≠ 0 := by
    have := dense
    simp only [denseBuf, Bool.and_eq_true, bne_iff_ne] at this
    exact this.2
  have enough : needed ≤ object.cap * 2 ^ 32 := by
    have : 1 ≤ object.cap := by omega
    calc
      needed ≤ 1 * 2 ^ 32 := by
        simp only [uint32Max] at neededLe
        omega
      _ ≤ object.cap * 2 ^ 32 := Nat.mul_le_mul_right _ this
  obtain ⟨reached, larger⟩ := le_growLoop enough
  refine ⟨fun i => if i < object.cap then object.data i else none,
    min (growLoop needed 32 object.cap) uint32Max, ?_, ?_, ?_, ?_, ?_, ?_⟩
  · simp [denseGrow, Nat.not_lt.mpr neededLe, positive]
  · exact le_min reached neededLe
  · exact le_min larger capLe
  · exact min_le_right _ _
  · funext j
    by_cases inside : j < object.cap
    · rw [slot_eq_data dense inside]
      simp [slot, denseBuf, inside]
      omega
    · simp [slot, inside]
  · simp [denseBuf]
    omega

/-- A buffer with room for the slot `i`, after a growth if one is needed. -/
theorem exists_room {object : Object} (dense : object.denseBuf = true)
    (capLe : object.cap ≤ uint32Max) (isIndex : i < uint32Max) :
    ∃ data cap fastArray, (if object.cap ≤ i then object.denseGrow (i + 1) else some object) =
        some { object with data, cap, fastArray } ∧
      i < cap ∧ cap ≤ uint32Max ∧
      slot { object with data, cap, fastArray } = slot object ∧
      ({ object with data, cap, fastArray } : Object).denseBuf = true := by
  by_cases full : object.cap ≤ i
  · obtain ⟨data, cap, grownEq, room, _, capLe, slots, stillDense⟩ :=
      denseGrow_spec dense capLe isIndex
    exact ⟨data, cap, true, by rw [if_pos full, grownEq], room, capLe, slots, stillDense⟩
  · exact ⟨object.data, object.cap, object.fastArray, by rw [if_neg full],
      by omega, capLe, rfl, dense⟩

end Growth

end AntRuntime.Arrays
