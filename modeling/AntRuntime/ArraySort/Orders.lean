import AntRuntime.Arrays.Runs
import AntRuntime.Objects.Mutators

/-!
# What sorting an array must do

The order of a sort is given by a comparator or by string conversions. The
standard converts the result of a comparator to a number and compares strings
by their UTF-16 code units; an error of either is passed on. Defined elements
come first, then the undefineds, then the holes, and equivalent elements keep
their order.
-/

namespace AntRuntime.ArraySort

open Objects Arrays

variable {τ : Type}

/-- The outcome of a call of a comparator: a number, another value with the
number it is converted to (zero for NaN), another value whose conversion fails,
or an error. -/
inductive Outcome
  | number (n : Int)
  | converted (n : Int)
  | unconvertible (error : Nat)
  | threw (error : Nat)
  deriving DecidableEq, Repr

namespace Outcome

/-- The number that the standard goes by. -/
def required : Outcome → Option Int
  | .number n => some n
  | .converted n => some n
  | .unconvertible _ => none
  | .threw _ => none

/-- The error that the standard passes on. -/
def error : Outcome → Option Nat
  | .number _ => none
  | .converted _ => none
  | .unconvertible error => some error
  | .threw error => some error

/-- What the runtime sees of it. -/
def answer : Outcome → Answer
  | .number n => .number n
  | .converted _ => .notNumber
  | .unconvertible _ => .notNumber
  | .threw _ => .threw

end Outcome

/-- The order of a sort: a comparator, which may have a state of its own but
does not change the array, or string conversions, with the text that
`js_tostring` gives for each value. -/
inductive Order (τ : Type)
  | comparator (compare : τ → Value → Value → Outcome × τ)
  | strings (text : Value → Except Nat (List Nat)) (shown : Value → List Nat)

namespace Order

variable (order : Order τ)

/-- The environment of the runtime; the state outside of the array is that of
the comparator and the first error it threw. -/
def environment : Environment (τ × Option Nat) where
  call := fun _ _ world => (⟨false, .undefined⟩, world)
  compare := fun _ a b world =>
    match order with
    | .comparator compare =>
      let (outcome, state) := compare world.outside.1 a b
      (outcome.answer,
        { world with outside := (state, world.outside.2.or outcome.error) })
    | .strings _ _ => (.notNumber, world)
  inherited := fun _ _ => none
  bytes :=
    match order with
    | .comparator _ => fun _ => []
    | .strings _ shown => fun value => Text.utf8 (shown value)

/-- The argument of the call. -/
def argument : Order τ → Option Nat
  | .comparator _ => some 0
  | .strings _ _ => none

/-- The total preorder that the order prescribes for some values: a comparator
must be consistent on them, and their conversions must succeed. -/
def Prescribes (members : List Value) (le : Value → Value → Bool) : Prop :=
  match order with
  | .comparator compare =>
    (∀ a ∈ members, ∀ b ∈ members, ∀ state, ∃ n, (compare state a b).1.required = some n ∧
        (n ≤ 0 ↔ le a b = true) ∧ (n < 0 ↔ le b a = false)) ∧
      ∀ a ∈ members, ∀ b ∈ members, ∀ c ∈ members, le a b = true → le b c = true → le a c = true
  | .strings text _ =>
    ∀ a ∈ members, ∀ b ∈ members, ∃ s t, text a = .ok s ∧ text b = .ok t ∧
      le a b = Text.lexLe (Text.utf16 s) (Text.utf16 t)

/-- The runtime reads the order as the standard does on any two defined values
of a pool: no call and no conversion fails; a result that is not a number is not
converted to a positive one, if the comparator is consistent on the two; and
the texts up to a NUL are ordered by their code points as the conversions are by
their code units. -/
def Fits (pool : Value → Prop) : Prop :=
  match order with
  | .comparator compare =>
    ∀ a b state, pool a → a ≠ .undefined → pool b → b ≠ .undefined →
      (compare state a b).1.error = none ∧ ∀ n, (compare state a b).1 = .converted n → 0 < n →
          ∀ le, ¬ Prescribes (.comparator compare) [a, b] le
  | .strings text shown =>
    ∀ a b, pool a → a ≠ .undefined → pool b → b ≠ .undefined →
      ∃ s t, text a = .ok s ∧ text b = .ok t ∧
        Text.lexLe (Text.untilNul (shown a)) (Text.untilNul (shown b)) =
          Text.lexLe (Text.utf16 s) (Text.utf16 t)

end Order

/-- The elements that are sorted. -/
def definedValues (slots : List (Option Value)) : List Value :=
  (slots.filterMap id).filter (· ≠ .undefined)

/-- The given slots in order: the defined values as sorted, then the undefineds,
then the holes; `hole` takes the place of a hole. -/
def arrangement (slots : List (Option Value)) (hole : Option Value)
    (sorted : List Value) : List (Option Value) :=
  sorted.map some ++ (List.replicate (slots.count (some .undefined)) (some .undefined) ++
      List.replicate (slots.count none) hole)

/-- A list is what a sort must make of the given slots. -/
def Order.Arranges (order : Order τ) (slots : List (Option Value)) (hole : Option Value)
    (result : List (Option Value)) : Prop :=
  ∃ sorted, sorted.Perm (definedValues slots) ∧ (∀ le, order.Prescribes (definedValues slots) le →
      Sorting.StableSorted le (definedValues slots) sorted) ∧
    result = arrangement slots hole sorted

/-- An array is what a sort must make of the given slots. -/
def Arranged (order : Order τ) (slots : List (Option Value)) (hole : Option Value)
    (object : Object) : Prop :=
  ∃ result, order.Arranges slots hole result ∧ view object = ecmaLiteral result

/-- The error that must be passed on: one of the comparator, or one of the
string conversions if there are two elements to compare. -/
def raised (order : Order τ) (slots : List (Option Value))
    (outside : τ × Option Nat) : Option Nat :=
  match order with
  | .comparator _ => outside.2
  | .strings text _ =>
    if 2 ≤ (definedValues slots).length then
      (definedValues slots).findSome? fun value =>
        match text value with
        | .error error => some error
        | .ok _ => none
    else none

/-- `sort` does as prescribed with an array of the given slots. -/
def Sorts (order : Order τ) (slots : List (Option Value)) (object : Object) (state : τ)
    (strict : Bool) : Prop :=
  let result := World.sort order.environment ⟨object, (state, none)⟩ order.argument strict
  match raised order slots result.2.outside with
  | some error => result.1 = .threw error ∧ result.2.object = object
  | none => result.1 = .receiver ∧ Arranged order slots none result.2.object

/-- `toSorted` does as prescribed with an array of the given slots. -/
def ToSorts (order : Order τ) (slots : List (Option Value)) (object : Object) (state : τ)
    (strict : Bool) : Prop :=
  let result := World.toSorted order.environment ⟨object, (state, none)⟩ order.argument strict
  match raised order slots result.2.outside with
  | some error => result.1 = .threw error
  | none => result.1 = .receiver ∧ Arranged order slots (some .undefined) result.2.object

/-- The order of elements, undefineds and holes. -/
def Ranked (le : Value → Value → Prop) : Option Value → Option Value → Prop
  | none, none => True
  | none, some _ => False
  | some _, none => True
  | some a, some b => if a = .undefined then b = .undefined else b ≠ .undefined → le a b

/-- A value is not behind another in any order that is prescribed. -/
def Order.Below (order : Order τ) (members : List Value) (a b : Value) : Prop :=
  ∀ le, order.Prescribes members le → le a b = true

/-- If the array has a buffer, the elements below its capacity are in it, and
what is beyond it is in the shape, where it must be at its place already. -/
def Settled (order : Order τ) (object : Object) (slots : List (Option Value)) : Prop :=
  object.denseBuf = true → (∀ i, i < object.cap → i < slots.length →
      slots[i]? = some (some ((slot object i).getD .undefined))) ∧
    (slots.drop object.cap).Pairwise (Ranked (order.Below (definedValues slots))) ∧
    ∀ a ∈ slots.take object.cap, ∀ b ∈ slots.drop object.cap,
      Ranked (order.Below (definedValues slots)) a b

/-- The array has a buffer with all defined elements; or it has no defined
element, and no hole beyond the first buffer of a new array. -/
def Copyable (object : Object) (slots : List (Option Value)) : Prop :=
  if object.denseBuf then
    ∀ i value, slots[i]? = some (some value) → value ≠ .undefined → slot object i = some value
  else
    definedValues slots = [] ∧ ∀ i, maxDenseInitialCap ≤ i → slots[i]? ≠ some none

end AntRuntime.ArraySort
