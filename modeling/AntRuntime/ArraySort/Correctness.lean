import AntRuntime.ArraySort.Copies

/-!
# When `sort` and `toSorted` are right

For a fitting order, `sort` does as prescribed exactly with arrays that have no
buffer or whose buffer holds what is sorted, and `toSorted` with arrays whose
buffer holds the defined elements. No other order has this property.
-/

namespace AntRuntime.ArraySort

open Objects Arrays Sorting List Text World

variable {τ : Type} {order : Order τ} {pool : Value → Prop}
variable {object : Object} {slots : List (Option Value)}

section Errors

variable {outside : τ × Option Nat} {after : Object} {state : τ}

section

variable (fits : order.Fits pool) (members : ∀ value ∈ definedValues slots, pool value)
  (noError : outside.2 = none)
include fits members noError

/-- A fitting order raises no error. -/
theorem Order.Fits.raised_eq_none : raised order slots outside = none := by
  cases order with
  | comparator compare => exact noError
  | strings text shown =>
    unfold raised
    split_ifs
    · rw [findSome?_eq_none_iff]
      intro value isIn
      have isDefined := (mem_definedValues.mp isIn).2
      obtain ⟨s, _, isText, _⟩ := fits value value (members value isIn) isDefined
        (members value isIn) isDefined
      rw [isText]
    · rfl

theorem Order.Fits.sorts_iff
    (result_eq :
      sort order.environment ⟨object, (state, none)⟩ order.argument strict =
        (.receiver, ⟨after, outside⟩)) :
    Sorts order slots object state strict ↔ Arranged order slots none after := by
  unfold Sorts
  rw [result_eq]
  simp [fits.raised_eq_none members noError]

theorem Order.Fits.toSorts_iff
    (result_eq :
      toSorted order.environment ⟨object, (state, none)⟩ order.argument strict =
        (.receiver, ⟨after, outside⟩)) :
    ToSorts order slots object state strict ↔ Arranged order slots (some .undefined) after := by
  unfold ToSorts
  rw [result_eq]
  simp [fits.raised_eq_none members noError]

end

end Errors

section InPlace

theorem getElem?_heldSlots (inside : i < min object.cap object.len) :
    (heldSlots object)[i]? = some (some ((slot object i).getD .undefined)) := by
  rw [heldSlots, getElem?_map, getElem?_heldValues inside]
  rfl

theorem length_heldSlots (object : Object) :
    (heldSlots object).length = min object.cap object.len := by
  rw [heldSlots, length_map, length_heldValues]

/-- What the buffer holds of the slots below its end. -/
theorem forall₂_held (isView : view object = ecmaLiteral slots) :
    List.Forall₂ (fun x y => x = y ∨ y = some .undefined)
      (slots.take object.cap) (heldSlots object) := by
  obtain ⟨len_eq, _⟩ := view_eq_literal_iff.mp isView
  rw [forall₂_iff_get]
  refine ⟨?_, fun i headBound heldBound => ?_⟩
  · rw [length_take, length_heldSlots, len_eq]
  · have inside := heldBound
    rw [length_heldSlots] at inside
    have headEq : some (slots.take object.cap)[i] = slots[i]? := by
      rw [← getElem?_eq_getElem headBound, getElem?_take_of_lt (by omega)]
    have heldEq : some (heldSlots object)[i] = some (some ((slot object i).getD .undefined)) := by
      rw [← getElem?_eq_getElem heldBound, getElem?_heldSlots inside]
    cases isSlot : slot object i with
    | none =>
      rw [isSlot] at heldEq
      exact Or.inr (Option.some.inj heldEq)
    | some value =>
      rw [isSlot] at heldEq
      rw [getElem?_of_slot isView isSlot] at headEq
      exact Or.inl ((Option.some.inj headEq).trans (Option.some.inj heldEq).symm)

theorem take_eq_held_iff (isView : view object = ecmaLiteral slots) :
    slots.take object.cap = heldSlots object ↔
      ∀ i, i < object.cap → i < slots.length →
        slots[i]? = some (some ((slot object i).getD .undefined)) := by
  obtain ⟨len_eq, _⟩ := view_eq_literal_iff.mp isView
  constructor
  · intro same i inside below
    rw [← getElem?_heldSlots (by omega), ← same, getElem?_take_of_lt inside]
  · intro held
    refine ext_getElem? fun i => ?_
    by_cases inside : i < min object.cap object.len
    · rw [getElem?_take_of_lt (by omega), getElem?_heldSlots inside]
      exact held i (by omega) (by omega)
    · rw [getElem?_eq_none (by rw [length_take]; omega),
        getElem?_eq_none (by rw [length_heldSlots]; omega)]

/-- `sort`. -/
theorem Order.Fits.sorts_iff_settled
    (fits : order.Fits pool) (sound : Sound object) (isView : view object = ecmaLiteral slots)
    (members : ∀ value ∈ definedValues slots, pool value) (state : τ) (strict : Bool) :
    Sorts order slots object state strict ↔ Settled order object slots := by
  cases dense : object.denseBuf with
  | true =>
    have held : ∀ value ∈ definedValues (heldSlots object), pool value ∧ value ≠ .undefined := by
      intro value isHeld
      have isIn := mem_definedValues_of_held isView isHeld
      exact ⟨members value isIn, (mem_definedValues.mp isIn).2⟩
    obtain ⟨stable, noError⟩ := fits.sortValues held ⟨object, (state, none)⟩
    obtain ⟨after, result_eq, afterView⟩ :=
      sort_dense order sound.isArray dense isView (state, none) strict
    rw [fits.sorts_iff members noError result_eq, arranged_iff afterView]
    have whole := arranges_append_iff (slots.drop object.cap)
      (forall₂_held isView) (mergeSort_perm order.before _ _) stable
    rw [take_append_drop] at whole
    rw [whole, take_eq_held_iff isView]
    simp only [Settled, dense, true_implies]
  | false =>
    have inShape := inShape_of_view sound dense isView
    have defined : ∀ value ∈ definedValues slots, pool value ∧ value ≠ .undefined :=
      fun value isIn => ⟨members value isIn, (mem_definedValues.mp isIn).2⟩
    obtain ⟨stable, noError⟩ := fits.sortValues defined ⟨object, (state, none)⟩
    obtain ⟨after, result_eq, afterView⟩ := sort_inShape order inShape isView (state, none) strict
    rw [fits.sorts_iff members noError result_eq, arranged_iff afterView]
    refine iff_of_true ⟨_, mergeSort_perm order.before _ _, stable, rfl⟩ ?_
    intro absurd
    rw [dense] at absurd
    cases absurd

end InPlace

section Copied

variable (isView : view object = ecmaLiteral slots)

include isView

theorem toSorted_eq
    (order : Order τ) (outside : τ × Option Nat) (strict : Bool) (sound : Sound object) :
    toSorted order.environment ⟨object, outside⟩ order.argument strict =
      sort order.environment
        ⟨arrayShallowCopy object slots.length, outside⟩ order.argument strict := by
  unfold toSorted
  simp only [sound.getArrayLength, (view_eq_literal_iff.mp isView).1]

/-- What the copy of a buffer holds of the slots. -/
theorem forall₂_copied :
    List.Forall₂ (fun x y => x = y ∨ y = .undefined)
      (slots.map (Option.getD · .undefined))
      ((range object.len).map fun i => (slot object i).getD .undefined) := by
  obtain ⟨len_eq, _⟩ := view_eq_literal_iff.mp isView
  rw [forall₂_iff_get]
  refine ⟨?_, fun i slotBound rangeBound => ?_⟩
  · rw [length_map, length_map, length_range, len_eq]
  · rw [length_map] at slotBound
    simp only [get_eq_getElem, getElem_map, getElem_range]
    cases isSlot : slot object i with
    | none => exact Or.inr rfl
    | some value =>
      have found := getElem?_of_slot isView isSlot
      rw [getElem?_eq_getElem slotBound] at found
      rw [Option.some.inj found]
      exact Or.inl rfl

theorem copied_eq_iff (dense : object.denseBuf = true) :
    slots.map (Option.getD · .undefined) =
        ((range object.len).map fun i => (slot object i).getD .undefined) ↔
      Copyable object slots := by
  obtain ⟨len_eq, _⟩ := view_eq_literal_iff.mp isView
  rw [Copyable, if_pos dense]
  constructor
  · intro same i value found isDefined
    obtain ⟨below, _⟩ := List.getElem?_eq_some_iff.mp found
    have here := congrArg (·[i]?) same
    simp only [getElem?_map, found, getElem?_range (len_eq ▸ below),
      Option.map_some, Option.some.injEq] at here
    exact slot_eq_some_of_getD here.symm isDefined
  · intro held
    refine ext_getElem (by simp [len_eq]) fun i slotBound _ => ?_
    rw [length_map] at slotBound
    simp only [getElem_map, getElem_range]
    have found := getElem?_eq_getElem slotBound
    by_cases isDefined : (slots[i]).getD .undefined = .undefined
    · rw [isDefined]
      by_contra isHeld
      have isSlot := slot_eq_some_of_getD rfl (Ne.symm isHeld)
      have same := found.symm.trans (getElem?_of_slot isView isSlot)
      rw [Option.some.inj same] at isDefined
      exact isHeld isDefined.symm
    · cases isElement : slots[i] with
      | none => simp [isElement] at isDefined
      | some value =>
        rw [isElement] at found isDefined
        rw [held i value found isDefined]

variable (fits : order.Fits pool) (sound : Sound object)
  (inPool : ∀ value ∈ definedValues slots, pool value) (state : τ) (strict : Bool)

include fits sound inPool

/-- `toSorted` of an array with a buffer. -/
theorem Order.Fits.toSorts_iff_dense (dense : object.denseBuf = true) :
    ToSorts order slots object state strict ↔ Copyable object slots := by
  obtain ⟨len_eq, _⟩ := view_eq_literal_iff.mp isView
  have copied : CopiedTo object object.len (arrayShallowCopy object slots.length) := by
    have whole := (copiedTo_empty object).shallowCopyDense object.len
      (by rw [Nat.zero_add]; exact sound.len_le)
    rw [Nat.zero_add] at whole
    unfold arrayShallowCopy
    rw [if_pos dense, ← len_eq]
    exact whole
  generalize copy_eq : arrayShallowCopy object slots.length = copy at copied
  have held_eq := copied.heldValues dense
  have members : ∀ value ∈ definedValues (heldSlots copy), pool value ∧ value ≠ .undefined := by
    intro value isHeld
    rw [heldSlots, definedValues_map_some, held_eq, mem_filter, mem_map] at isHeld
    obtain ⟨⟨i, _, value_eq⟩, isDefined⟩ := isHeld
    have isDefined : value ≠ .undefined := of_decide_eq_true isDefined
    exact ⟨inPool value (mem_definedValues_of_getD isView value_eq isDefined), isDefined⟩
  obtain ⟨stable, noError⟩ := fits.sortValues members ⟨copy, (state, none)⟩
  obtain ⟨after, result_eq, afterView⟩ :=
    sort_dense order copied.isArray copied.dense copied.view (state, none) strict
  have run := toSorted_eq isView order (state, none) strict sound
  rw [copy_eq] at run
  have noRest : ((range object.len).map object.denseGet).drop copy.cap = [] := by
    rw [drop_eq_nil_iff, length_map, length_range]
    exact copied.room
  rw [noRest, append_nil] at afterView
  rw [fits.toSorts_iff inPool noError (run.trans result_eq), arranged_iff afterView]
  have related := forall₂_copied isView
  rw [← held_eq] at related
  have whole := arranges_copy_iff related
    (mergeSort_perm order.before _ ⟨copy, (state, none)⟩) stable
  refine whole.trans ?_
  rw [held_eq]
  exact copied_eq_iff isView dense

/-- `toSorted` of an array without a buffer. -/
theorem Order.Fits.toSorts_iff_inShape (sparse : object.denseBuf = false) :
    ToSorts order slots object state strict ↔ Copyable object slots := by
  obtain ⟨len_eq, _⟩ := view_eq_literal_iff.mp isView
  obtain ⟨isArray, dense, cap_eq, copyLen, noSlot, copyView⟩ :=
    view_arrayShallowCopy (inShape_of_view sound sparse isView) isView (len_eq ▸ sound.len_le)
  have run := toSorted_eq isView order (state, none) strict sound
  generalize arrayShallowCopy object slots.length = copy
    at isArray dense cap_eq copyLen noSlot copyView run
  have held_eq : heldValues copy =
      replicate (min maxDenseInitialCap slots.length) .undefined := by
    rw [heldValues, cap_eq, copyLen]
    simp [noSlot]
  have noValues : definedValues (heldSlots copy) = [] := by
    rw [heldSlots, held_eq, definedValues_map_some]
    simp
  obtain ⟨after, result_eq, afterView⟩ :=
    sort_dense order isArray dense copyView (state, none) strict
  rw [noValues] at result_eq afterView
  have arrangement_eq : arrangement (heldSlots copy) none
      (mergeSort order.before [] ⟨copy, (state, none)⟩).1 =
      replicate (min maxDenseInitialCap slots.length) (some .undefined) := by
    obtain ⟨undefineds, noHoles⟩ := count_heldSlots copy
    rw [arrangement, undefineds, noHoles, held_eq, count_replicate_self]
    exact append_nil _
  rw [arrangement_eq, cap_eq] at afterView
  rw [fits.toSorts_iff inPool rfl (run.trans result_eq), arranged_iff afterView,
    arranges_uncopied_iff (by decide), Copyable, if_neg (by simp [sparse])]

end Copied

section Pairs

variable {a b : Value}

theorem heldSlots_pair (a b : Value) :
    heldSlots (Object.literal [some a, some b]) = [some a, some b] := by
  rfl

theorem definedValues_pair (aDefined : a ≠ .undefined) (bDefined : b ≠ .undefined) :
    definedValues [some a, some b] = [a, b] := by
  rw [definedValues_some aDefined, definedValues_some bDefined, definedValues_nil]

theorem settled_pair (order : Order τ) (a b : Value) :
    Settled order (Object.literal [some a, some b]) [some a, some b] := by
  intro _
  refine ⟨fun i _ below => ?_, List.Pairwise.nil, fun _ _ _ isIn => ?_⟩
  · have cases : i = 0 ∨ i = 1 := by
      simp only [length_cons, length_nil] at below
      omega
    rcases cases with rfl | rfl <;> rfl
  · cases isIn

/-- What a sort of two values shows of the comparison. -/
theorem arranges_of_sorts_pair (aDefined : a ≠ .undefined) (bDefined : b ≠ .undefined) {state : τ}
    (sorts : Sorts order [some a, some b] (Object.literal [some a, some b]) state false) :
    let compared := order.before a b ⟨Object.literal [some a, some b], (state, none)⟩
    raised order [some a, some b] compared.2.outside = none ∧
      ∃ sorted, sorted = (if compared.1 then [a, b] else [b, a]) ∧
        ∀ le, order.Prescribes [a, b] le → StableSorted le [a, b] sorted := by
  intro compared
  have dense : (Object.literal [some a, some b]).denseBuf = true := rfl
  obtain ⟨after, result_eq, afterView⟩ :=
    sort_dense order rfl dense view_literal (state, none) false
  have noRest : [some a, some b].drop (Object.literal [some a, some b]).cap = [] := rfl
  rw [heldSlots_pair, definedValues_pair aDefined bDefined, mergeSort_pair] at result_eq afterView
  rw [noRest, append_nil] at afterView
  unfold Sorts at sorts
  rw [result_eq] at sorts
  simp only at sorts
  split at sorts
  · exact absurd sorts.1 (by simp)
  · rename_i noError
    refine ⟨noError, ?_⟩
    obtain ⟨sorted, _, stable, sorted_eq⟩ := (arranged_iff afterView).mp sorts.2
    rw [definedValues_pair aDefined bDefined] at stable
    refine ⟨sorted, ?_, stable⟩
    have noFiller : ∀ values : List Value,
        arrangement [some a, some b] none values = values.map some := by
      intro values
      simp [arrangement, aDefined, bDefined]
    rw [noFiller, noFiller] at sorted_eq
    exact (map_injective_iff.mpr (Option.some_injective _) sorted_eq).symm

/-- The order that conversions prescribe. -/
def unitsLe (text : Value → Except Nat (List Nat)) (a b : Value) : Bool :=
  match text a, text b with
  | .ok s, .ok t => lexLe (utf16 s) (utf16 t)
  | _, _ => false

theorem unitsLe_eq {text : Value → Except Nat (List Nat)} {s t : List Nat} (aText : text a = .ok s)
    (bText : text b = .ok t) :
    unitsLe text a b = lexLe (utf16 s) (utf16 t) := by
  rw [unitsLe, aText, bText]

/-- An order for which two values are sorted as prescribed fits them. -/
theorem fits_of_sorts_pairs [Inhabited τ]
    (sorts : ∀ a b state, pool a → a ≠ .undefined → pool b → b ≠ .undefined →
      Sorts order [some a, some b] (Object.literal [some a, some b]) state false) :
    order.Fits pool := by
  cases order with
  | comparator compare =>
    intro a b state aPool aDefined bPool bDefined
    obtain ⟨noError, sorted, sorted_eq, stable⟩ := arranges_of_sorts_pair aDefined
      bDefined (sorts a b state aPool aDefined bPool bDefined)
    simp only [Order.before, compareLe, Order.environment] at noError sorted_eq
    cases outcome : (compare state a b).1 with
    | number n => exact ⟨rfl, fun m isConverted => absurd isConverted (by simp)⟩
    | converted n =>
      refine ⟨rfl, fun m isConverted positive le prescribes => ?_⟩
      obtain rfl := Outcome.converted.inj isConverted
      -- the runtime takes the result as zero and leaves the two in place
      have kept : sorted = [a, b] := by simpa [outcome, Outcome.answer] using sorted_eq
      have inOrder := (stable le prescribes).pairwise
      rw [kept] at inOrder
      have isLe := (pairwise_cons.mp inOrder).1 b (by simp)
      obtain ⟨k, required, nonpositive, _⟩ := prescribes.1 a (by simp) b (by simp) state
      rw [outcome] at required
      obtain rfl := Option.some.inj required
      have := nonpositive.mpr isLe
      omega
    | unconvertible error | threw error =>
      rw [outcome] at noError
      cases noError
  | strings text shown =>
    intro a b aPool aDefined bPool bDefined
    obtain ⟨noError, sorted, sorted_eq, stable⟩ := arranges_of_sorts_pair aDefined
      bDefined (sorts a b default aPool aDefined bPool bDefined)
    rw [raised, definedValues_pair aDefined bDefined, if_pos (by simp),
      findSome?_eq_none_iff] at noError
    have converted : ∀ value ∈ [a, b], ∃ s, text value = .ok s := by
      intro value isIn
      have noFailure := noError value isIn
      cases isText : text value with
      | ok s => exact ⟨s, rfl⟩
      | error failure => simp [isText] at noFailure
    obtain ⟨s, aText⟩ := converted a (by simp)
    obtain ⟨t, bText⟩ := converted b (by simp)
    refine ⟨s, t, aText, bText, ?_⟩
    have stably := stable (unitsLe text) (by
      intro x xMem y yMem
      obtain ⟨xs, xText⟩ := converted x xMem
      obtain ⟨ys, yText⟩ := converted y yMem
      exact ⟨xs, ys, xText, yText, unitsLe_eq xText yText⟩)
    simp only [Order.before, strcmpLe, sortKey, Order.environment,
      takeWhile_utf8, lexLe_utf8] at sorted_eq
    rw [sorted_eq] at stably
    cases answer : lexLe (untilNul (shown a)) (untilNul (shown b)) with
    | true =>
      rw [answer] at stably
      have isLe := (pairwise_cons.mp stably.pairwise).1 b (by simp)
      rw [unitsLe_eq aText bText] at isLe
      exact isLe.symm
    | false =>
      have distinct : a ≠ b := by
        rintro rfl
        rw [lexLe_refl] at answer
        cases answer
      rw [answer] at stably
      have isStrict := stably.exchanged distinct
      rw [unitsLe_eq aText bText] at isStrict
      exact isStrict.symm

end Pairs

/-- The order fits if and only if `sort` and `toSorted` do as prescribed with
exactly the arrays that are stored suitably. -/
theorem fits_iff_sorts_and_toSorts [Inhabited τ] (order : Order τ) (pool : Value → Prop) :
    order.Fits pool ↔
      ∀ object slots, Sound object → view object = ecmaLiteral slots →
        (∀ value ∈ definedValues slots, pool value) → ∀ state strict,
          (Sorts order slots object state strict ↔ Settled order object slots) ∧
            (ToSorts order slots object state strict ↔ Copyable object slots) := by
  constructor
  · intro fits object slots sound isView inPool state strict
    refine ⟨fits.sorts_iff_settled sound isView inPool state strict, ?_⟩
    cases dense : object.denseBuf with
    | true => exact Order.Fits.toSorts_iff_dense isView fits sound inPool state strict dense
    | false => exact Order.Fits.toSorts_iff_inShape isView fits sound inPool state strict dense
  · intro sorts
    refine fits_of_sorts_pairs fun a b state aPool aDefined bPool bDefined => ?_
    have inPool : ∀ value ∈ definedValues [some a, some b], pool value := by
      intro value isIn
      rw [definedValues_pair aDefined bDefined] at isIn
      simp only [mem_cons, not_mem_nil, or_false] at isIn
      rcases isIn with rfl | rfl <;> assumption
    exact (sorts _ _ (sound_literal (by simp [uint32Max])) view_literal inPool state false).1.mpr
      (settled_pair order a b)

/-- A comparator that throws. -/
def throwing : Order Unit :=
  .comparator fun state _ _ => (.threw 0, state)

/-- The error of a comparator is lost. -/
theorem not_sorts_throwing :
    ¬ Sorts throwing [some (.number 2), some (.number 1)]
      (Object.literal [some (.number 2), some (.number 1)]) () false := by
  intro sorts
  have returned : Completion.receiver = .threw 0 := sorts.1
  cases returned

/-- Comparators that return numbers sort every literal without holes as prescribed. -/
theorem sorts_literal (compare : τ → Value → Value → Int × τ) (values : List Value)
    (isLength : values.length ≤ uint32Max) (state : τ) (strict : Bool) :
    Sorts (.comparator fun state a b => (compare state a b).map .number id) (values.map some)
      (Object.literal (values.map some)) state strict := by
  have fits : Order.Fits (.comparator fun state a b => (compare state a b).map .number id)
      fun _ => True := fun _ _ _ _ _ _ _ => ⟨rfl, nofun⟩
  rw [fits.sorts_iff_settled (sound_literal (by rwa [length_map])) view_literal fun _ _ => trivial]
  have room : (values.map some).length ≤ (Object.literal (values.map some)).cap := by
    dsimp only [Object.literal, Object.literalCapacity]
    split <;> omega
  intro _
  rw [drop_eq_nil_of_le room]
  refine ⟨fun i _ below => ?_, .nil, fun _ _ _ => nofun⟩
  rw [slot_literal, getElem?_eq_getElem below]
  simp

theorem sorts_literal_pair :
    Sorts (.comparator fun state _ _ => (.number 1, state)) [some (.number 2), some (.number 1)]
      (Object.literal [some (.number 2), some (.number 1)]) () false :=
  sorts_literal (fun state _ _ => (1, state)) [.number 2, .number 1] (by decide) () false

end AntRuntime.ArraySort
