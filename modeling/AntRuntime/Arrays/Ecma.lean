import AntRuntime.Objects.Define

/-!
# The arrays of ECMAScript

An array exotic object: a length, and a property for some of the indices below
it. The operations follow the internal methods of the standard; a failed
assignment, deletion or length change throws in strict code only.
-/

namespace AntRuntime.Arrays

open Objects

/-- A property of an array. -/
inductive EcmaProperty
  | data (value : Value) (writable enumerable configurable : Bool)
  | accessor (get set : Option Nat) (enumerable configurable : Bool)
  deriving DecidableEq, Repr

namespace EcmaProperty

/-- A data property with all attributes. -/
def plain (value : Value) : EcmaProperty :=
  .data value true true true

def enumerable : EcmaProperty → Bool
  | .data _ _ enumerable _ => enumerable
  | .accessor _ _ enumerable _ => enumerable

def configurable : EcmaProperty → Bool
  | .data _ _ _ configurable => configurable
  | .accessor _ _ _ configurable => configurable

end EcmaProperty

/-- An array. -/
structure EcmaArray where
  length : Nat
  lengthWritable : Bool
  props : Nat → Option EcmaProperty

/-- What a program sees of an operation. -/
inductive Output
  | value (value : Value)
  | called (f : Nat)
  | bool (answer : Bool)
  | done
  | thrown
  deriving DecidableEq, Repr

/-- A failure throws in strict code. -/
def Output.failed (strict : Bool) : Output :=
  if strict then .thrown else .done

/-- How a value becomes an array length: numbers as they are, other values
after a conversion. -/
structure LengthConversion where
  apply : Value → Option Nat
  number : ∀ n, apply (.number n) = Object.validArrayLength (.number n)

namespace EcmaArray

variable (array : EcmaArray)

/-- `[[Get]]`. -/
def get (i : Nat) : Output :=
  match array.props i with
  | some (.data value _ _ _) => .value value
  | some (.accessor (some getter) _ _ _) => .called getter
  | some (.accessor none _ _ _) => .value .undefined
  | none => .value .undefined

/-- `[[HasProperty]]`. -/
def has (i : Nat) : Bool :=
  (array.props i).isSome

/-- A property put at an index, with the length that follows. -/
def put (i : Nat) (property : EcmaProperty) : EcmaArray :=
  { array with
    length := max array.length (i + 1)
    props := Function.update array.props i (some property) }

/-- The length forbids a new property at the index. -/
def fixed (i : Nat) : Bool :=
  decide (array.length ≤ i) && !array.lengthWritable

/-- `[[Set]]`. -/
def set (i : Nat) (value : Value) (strict : Bool) : Output × EcmaArray :=
  match array.props i with
  | some (.data _ true enumerable configurable) =>
    (.done, array.put i (.data value true enumerable configurable))
  | some (.data _ false _ _) => (.failed strict, array)
  | some (.accessor _ (some setter) _ _) => (.called setter, array)
  | some (.accessor _ none _ _) => (.failed strict, array)
  | none =>
    if array.fixed i then (.failed strict, array)
    else (.done, array.put i (.plain value))

/-- `[[Delete]]`. -/
def delete (i : Nat) (strict : Bool) : Output × EcmaArray :=
  match array.props i with
  | none => (.bool true, array)
  | some property =>
    if property.configurable then
      (.bool true, { array with props := Function.update array.props i none })
    else (if strict then .thrown else .bool false, array)

/-- The loop of `ArraySetLength`: properties are deleted from the top, down to
one that cannot be. Gives the length reached. -/
def truncate
    (props : Nat → Option EcmaProperty) (newLen : Nat) : Nat → Nat × (Nat → Option EcmaProperty)
  | 0 => (newLen, props)
  | count + 1 =>
    match props (newLen + count) with
    | some property =>
      if property.configurable then
        truncate (Function.update props (newLen + count) none) newLen count
      else (newLen + count + 1, props)
    | none => truncate props newLen count

/-- `ArraySetLength` with a new length; tells whether it was reached. -/
def changeLength (newLen : Nat) : Bool × EcmaArray :=
  if newLen = array.length then (true, array)
  else if !array.lengthWritable then (false, array)
  else if array.length ≤ newLen then (true, { array with length := newLen })
  else
    let (reached, props) := truncate array.props newLen (array.length - newLen)
    (decide (reached = newLen), { array with length := reached, props })

/-- `array.length = value`. -/
def setLength (conversion : LengthConversion) (array : EcmaArray) (value : Value)
    (strict : Bool) : Output × EcmaArray :=
  match conversion.apply value with
  | none => (.thrown, array)
  | some newLen =>
    match array.changeLength newLen with
    | (true, after) => (.done, after)
    | (false, after) => (.failed strict, after)

/-- The property that a descriptor makes out of nothing. -/
def created (desc : Descriptor) : EcmaProperty :=
  let enumerable := desc.enumerable.getD false
  let configurable := desc.configurable.getD false
  if desc.get.isSome || desc.set.isSome then
    .accessor (desc.get.bind AccessorField.target)
      (desc.set.bind AccessorField.target) enumerable configurable
  else
    .data (desc.value.getD .undefined) (desc.writable.getD false)
      enumerable configurable

/-- The property that a descriptor makes out of an existing one. -/
def changed (current : EcmaProperty) (desc : Descriptor) : EcmaProperty :=
  let enumerable := desc.enumerable.getD current.enumerable
  let configurable := desc.configurable.getD current.configurable
  match current with
  | .data value writable _ _ =>
    if desc.get.isSome || desc.set.isSome then
      .accessor (desc.get.bind AccessorField.target)
        (desc.set.bind AccessorField.target) enumerable configurable
    else
      .data (desc.value.getD value) (desc.writable.getD writable)
        enumerable configurable
  | .accessor get set _ _ =>
    if desc.value.isSome || desc.writable.isSome then
      .data (desc.value.getD .undefined) (desc.writable.getD false)
        enumerable configurable
    else
      .accessor ((desc.get.map AccessorField.target).getD get)
        ((desc.set.map AccessorField.target).getD set)
        enumerable configurable

/-- The checks of `ValidateAndApplyPropertyDescriptor` on an existing
property. -/
def allows (current : EcmaProperty) (desc : Descriptor) : Bool :=
  current.configurable || (decide (desc.configurable ≠ some true) &&
      decide (desc.enumerable ≠ some (!current.enumerable)) &&
      match current with
      | .data value writable _ _ =>
        desc.get.isNone && desc.set.isNone && (writable ||
            (decide (desc.writable ≠ some true) &&
              (desc.value.isNone || decide (desc.value = some value))))
      | .accessor get set _ _ =>
        desc.value.isNone && desc.writable.isNone && (desc.get.isNone ||
            decide (desc.get.bind AccessorField.target = get)) &&
          (desc.set.isNone || decide (desc.set.bind AccessorField.target = set)))

/-- `Object.defineProperty(array, i, descriptor)`. -/
def defineIndex (i : Nat) (desc : Descriptor) : Output × EcmaArray :=
  if desc.invalid.isSome then (.thrown, array)
  else
    match array.props i with
    | none =>
      if array.fixed i then (.thrown, array)
      else (.done, array.put i (created desc))
    | some current =>
      if allows current desc then
        (.done, array.put i (changed current desc))
      else (.thrown, array)

/-- `Object.defineProperty(array, "length", descriptor)`. -/
def defineLength (conversion : LengthConversion) (array : EcmaArray)
    (desc : Descriptor) : Output × EcmaArray :=
  if desc.invalid.isSome || desc.get.isSome || desc.set.isSome ||
      decide (desc.enumerable = some true) ||
      decide (desc.configurable = some true) ||
      (!array.lengthWritable && decide (desc.writable = some true)) then
    (.thrown, array)
  else
    let locked (after : EcmaArray) : EcmaArray :=
      if desc.writable = some false then { after with lengthWritable := false }
      else after
    match desc.value with
    | none => (.done, locked array)
    | some value =>
      match conversion.apply value with
      | none => (.thrown, array)
      | some newLen =>
        match array.changeLength newLen with
        | (true, after) => (.done, locked after)
        | (false, after) => (.thrown, locked after)

end EcmaArray

/-- An array index. -/
abbrev Index := { i : Nat // i < uint32Max }

/-- An operation on an array. -/
inductive Op
  | get (i : Index)
  | has (i : Index)
  | set (i : Index) (value : Value) (strict : Bool)
  | delete (i : Index) (strict : Bool)
  | length
  | setLength (value : Value) (strict : Bool)
  | defineIndex (i : Index) (desc : Descriptor)
  | defineLength (desc : Descriptor)

/-- An operation as the standard has it. -/
def ecmaStep
    (conversion : LengthConversion)
    (array : EcmaArray) : Op → Output × EcmaArray
  | .get i => (array.get i, array)
  | .has i => (.bool (array.has i), array)
  | .set i value strict => array.set i value strict
  | .delete i strict => array.delete i strict
  | .length => (.value (.number array.length), array)
  | .setLength value strict => array.setLength conversion value strict
  | .defineIndex i desc => array.defineIndex i desc
  | .defineLength desc => array.defineLength conversion desc

end AntRuntime.Arrays
