import Mathlib.Algebra.Group.Int.Defs
import Mathlib.Algebra.Group.Nat.Defs
import Mathlib.Logic.Function.Basic

/-!
# Objects and arrays

The part of an object that property access works on: the properties its shape
describes, its integrity flags and, for arrays, the length and the dense buffer
of elements. An element of an array can be in the buffer or in the shape.
-/

namespace AntRuntime.Objects

/-- JavaScript values, as far as property access looks into them. -/
inductive Value
  | undefined
  | number (n : Int)
  | text (codePoints : List Nat)
  | other (tag : Nat)
  deriving DecidableEq, Repr

/-- Property keys: canonical array indices, `length`, other strings, symbols. -/
inductive Key
  | index (i : Nat)
  | length
  | name (text : String)
  | symbol (id : Nat)
  deriving DecidableEq, Repr

/-- The text of a key in messages; a symbol is shown by its description. -/
def Key.text : Key → String
  | .index i => toString i
  | .length => "length"
  | .name text => text
  | .symbol _ => "symbol"

/-- `ant_shape_prop_t` with the value of its slot. A getter or setter is
present if its flag is set, and is then a function or undefined. -/
structure Property where
  value : Value
  writable : Bool
  enumerable : Bool
  configurable : Bool
  getter : Option (Option Nat)
  setter : Option (Option Nat)
  deriving DecidableEq, Repr

namespace Property

/-- A data property with `ANT_PROP_ATTR_DEFAULT`. -/
def plain (value : Value) : Property :=
  ⟨value, true, true, true, none, none⟩

/-- The property has a getter or a setter. -/
def isAccessor (property : Property) : Bool :=
  property.getter.isSome || property.setter.isSome

/-- A data property with all attributes. -/
def isPlain (property : Property) : Bool :=
  property.writable && property.enumerable && property.configurable && !property.isAccessor

end Property

/-- `ant_object_t`. The buffer has `cap` slots, an empty one is `none`. -/
structure Object where
  isArray : Bool
  len : Nat
  cap : Nat
  data : Nat → Option Value
  fastArray : Bool
  props : Key → Option Property
  frozen : Bool
  isSealed : Bool
  extensible : Bool

/-- `UINT32_MAX`. -/
def uint32Max : Nat := 2 ^ 32 - 1

/-- `MAX_DENSE_INITIAL_CAP`. -/
def maxDenseInitialCap : Nat := 8

namespace Object

variable (object : Object)

/-- `get_dense_buf`: the array has a dense buffer. -/
def denseBuf : Bool :=
  object.fastArray && object.cap != 0

/-- `dense_get`. -/
def denseGet (i : Nat) : Option Value :=
  if object.denseBuf && decide (i < object.cap) then object.data i
  else some .undefined

/-- `dense_set`. -/
def denseSet (i : Nat) (slot : Option Value) : Object :=
  if object.denseBuf && decide (i < object.cap) then
    { object with data := Function.update object.data i slot }
  else object

/-- The doubling loop of `dense_grow`; 32 rounds reach every needed size. -/
def growLoop (needed : Nat) : Nat → Nat → Nat
  | 0, cap => cap
  | rounds + 1, cap =>
    if cap < needed then growLoop needed rounds (cap * 2) else cap

/-- `dense_grow`; memory is taken to be available. -/
def denseGrow (needed : Nat) : Option Object :=
  if uint32Max < needed then none
  else
    let start := if object.cap = 0 then maxDenseInitialCap else object.cap
    some
      { object with
        data := fun i => if i < object.cap then object.data i else none
        cap := min (growLoop needed 32 start) uint32Max
        fastArray := true }

/-- The doubling loop of `alloc_array_with_proto_capacity`. -/
def capacityLoop (minimum : Nat) : Nat → Nat → Nat
  | 0, cap => cap
  | rounds + 1, cap =>
    if cap < minimum ∧ cap ≤ uint32Max / 2 then
      capacityLoop minimum rounds (cap * 2)
    else cap

/-- The capacity of a new array with the given number of elements. -/
def literalCapacity (count : Nat) : Nat :=
  let cap := capacityLoop count 32 maxDenseInitialCap
  if cap < count then count else cap

/-- `mkarr_dense_literal_capacity`: an array literal, a hole is `none`. -/
def literal (slots : List (Option Value)) : Object where
  isArray := true
  len := slots.length
  cap := literalCapacity slots.length
  data := fun i => slots[i]?.join
  fastArray := true
  props := fun _ => none
  frozen := false
  isSealed := false
  extensible := true

/-- `get_array_length`. -/
def getArrayLength : Nat :=
  if object.isArray then object.len
  else
    match object.props .length with
    | some ⟨.number n, _, _, _, _, _⟩ => n.toNat
    | _ => 0

/-- `dense_iterable_length`. -/
def denseIterableLength : Nat :=
  if object.denseBuf then min object.cap object.getArrayLength else 0

/-- The property with its value replaced, `js_prop_store`. -/
def propStore (key : Key) (value : Value) : Object :=
  match object.props key with
  | some property =>
    { object with
      props := Function.update object.props key (some { property with value }) }
  | none => object

/-- `mkprop`: an existing property gets the value and the attributes, its
accessors stay; a new one is added. -/
def mkprop (key : Key) (value : Value) (writable enumerable configurable : Bool) : Object :=
  let property :=
    match object.props key with
    | some existing => { existing with value, writable, enumerable, configurable }
    | none => ⟨value, writable, enumerable, configurable, none, none⟩
  { object with props := Function.update object.props key (some property) }

/-- `array_len_set`. -/
def arrayLenSet (newLen : Nat) : Object :=
  if object.isArray then { object with len := min newLen uint32Max }
  else
    match object.props .length with
    | some _ => object.propStore .length (.number newLen)
    | none => object.mkprop .length (.number newLen) true true true

/-- `array_define_or_set_index`: an index at or above the length of an array
sets the length. -/
def arrayDefineOrSetIndex : Key → Object
  | .index i =>
    if object.isArray && decide (i < uint32Max) && decide (object.getArrayLength < i + 1) then
      object.arrayLenSet (i + 1)
    else object
  | _ => object

/-- What a read finds. -/
inductive Read
  | value (value : Value)
  | call (getter : Nat)
  deriving DecidableEq, Repr

/-- A property found in the shape is read: a getter is called, and without one
the slot is read. -/
def readProperty (property : Property) : Read :=
  match property.getter with
  | some (some getter) => .call getter
  | some none => .value .undefined
  | none => .value property.value

/-- `arr_get`, where `inherited` is the first property of the index on the
prototype chain. -/
def arrGet (i : Nat) (inherited : Option Property) : Read :=
  let fast :=
    if object.isArray && object.fastArray && decide (i < object.len) &&
        decide (i < object.cap) then object.data i
    else none
  match fast with
  | some value => .value value
  | none =>
    if object.getArrayLength ≤ i then .value .undefined
    else
      let slot :=
        if object.denseBuf && decide (i < object.denseIterableLength) then
          object.denseGet i
        else none
      match slot with
      | some value => .value value
      | none =>
        match (object.props (.index i)).or inherited with
        | some property => readProperty property
        | none => .value .undefined

/-- `arr_has`, where `inherited` is as for `arr_get`. -/
def arrHas (i : Nat) (inherited : Option Property) : Bool :=
  decide (i < object.getArrayLength) &&
    ((object.denseBuf && decide (i < object.denseIterableLength) && (object.denseGet i).isSome) ||
      ((object.props (.index i)).or inherited).isSome)

/-- The index from which on `arr_set` prefers the shape to the buffer. -/
def densityLimit : Nat :=
  let len := object.denseIterableLength
  if 0 < len then len * 4 else 64

/-- The loop of `arr_set` that empties slots holding undefined between the
dense length and the index. -/
def emptyUndefined (object : Object) (start : Nat) : Nat → Object
  | 0 => object
  | count + 1 =>
    let slot := object.denseGet start
    let cleared := if slot = some .undefined then object.denseSet start none else object
    cleared.emptyUndefined (start + 1) count

/-- The part of `arr_set` that stores in the buffer; `none` is its jump to
`sparse`. -/
def arrSetDense (i : Nat) (slot : Option Value) : Option Object :=
  if object.denseBuf then
    let len := object.denseIterableLength
    if i < len then some (object.denseSet i slot)
    else if object.densityLimit ≤ i then none
    else
      let grown := if object.cap ≤ i then object.denseGrow (i + 1) else some object
      grown.map fun buffer =>
        let stored := (buffer.emptyUndefined len (i - len)).denseSet i slot
        if object.getArrayLength ≤ i then stored.arrayLenSet (i + 1) else stored
  else none

end Object

/-- What an assignment does. -/
inductive SetResult
  | returned
  | error (message : String)
  | setter (f : Nat)
  deriving DecidableEq, Repr

/-- A failed assignment: an error in strict code, otherwise nothing. -/
def SetResult.failure (strict : Bool) (message : String) : SetResult :=
  if strict then .error message else .returned

namespace Object

variable (object : Object)

/-- `check_object_extensibility`. -/
def checkObjectExtensibility (strict : Bool) : Option SetResult :=
  if object.frozen then
    some (.failure strict "cannot add property to frozen object")
  else if object.isSealed then
    some (.failure strict "cannot add property to sealed object")
  else if !object.extensible then
    some (.failure strict "cannot add property to non-extensible object")
  else none

/-- `js_setprop_array_fast`; `none` is `JS_SETPROP_ARRAY_NOT_HANDLED`. -/
def setpropArrayFast (i : Nat) (value : Value) (strict : Bool) : Option (SetResult × Object) :=
  if object.denseBuf && decide (i < object.denseIterableLength) then
    if object.frozen then
      some (.failure strict "assignment to read-only array element", object)
    else some (.returned, object.denseSet i (some value))
  else if object.denseBuf && decide (i < object.densityLimit) then
    match object.checkObjectExtensibility strict with
    | some result => some (result, object)
    | none => some (.returned, (object.arrSetDense i (some value)).getD object)
  else if i < object.getArrayLength then none
  else
    match object.checkObjectExtensibility strict with
    | some result => some (result, object)
    | none =>
      some (.returned, (object.mkprop (.index i) value true true true).arrayDefineOrSetIndex
          (.index i))

/-- `validate_array_length`: the lengths it accepts. -/
def validArrayLength : Value → Option Nat
  | .number n => if 0 ≤ n ∧ n < 2 ^ 32 then some n.toNat else none
  | _ => none

/-- The loop that empties the dense slots from `start` on. -/
def clearDense (object : Object) (start : Nat) : Nat → Object
  | 0 => object
  | count + 1 => (object.denseSet start none).clearDense (start + 1) count

/-- The change of the length of an array, as `setprop_impl` and
`object_define_property_keyed` make it. -/
def changeLength (newLen : Nat) : Object :=
  let clearTo := min object.getArrayLength object.cap
  let cleared := if object.denseBuf then object.clearDense newLen (clearTo - newLen) else object
  cleared.arrayLenSet newLen

/-- The part of `setprop_impl` for a property that is added. -/
def createNew (key : Key) (value : Value) (strict : Bool) : SetResult × Object :=
  match object.checkObjectExtensibility strict with
  | some result => (result, object)
  | none => (.returned, (object.mkprop key value true true true).arrayDefineOrSetIndex key)

/-- What a property that was found makes of an assignment: a call of its
setter or a failure; `none` lets the assignment proceed. -/
def assignedBy (property : Property) (strict : Bool) : Option SetResult :=
  match property.setter, property.getter with
  | some (some setter), _ => some (.setter setter)
  | none, some _ => some (.failure strict "Cannot set property which has only a getter")
  | _, _ =>
    if property.writable then none
    else some (.failure strict "assignment to read-only property")

/-- The lookup of `setprop_impl` in the shape and on the prototype chain,
where `inherited` is the first property of that key. -/
def setpropOrdinary (key : Key) (value : Value) (strict : Bool)
    (inherited : Option Property) : SetResult × Object :=
  match object.props key with
  | some property =>
    match assignedBy property strict with
    | some result => (result, object)
    | none => (.returned, (object.propStore key value).arrayDefineOrSetIndex key)
  | none =>
    match inherited with
    | some property =>
      match assignedBy property strict with
      | some result => (result, object)
      | none => object.createNew key value strict
    | none => object.createNew key value strict

/-- The symbol-keyed part of `setprop_impl`. -/
def setpropSymbol (key : Key) (value : Value) (strict : Bool)
    (inherited : Option Property) : SetResult × Object :=
  let found := (object.props key).or inherited
  let blocked :=
    match found with
    | some ⟨_, _, _, _, _, some (some setter)⟩ => some (.setter setter)
    | some ⟨_, _, _, _, some _, none⟩ =>
      some (.failure strict "Cannot set property which has only a getter")
    | some ⟨_, false, _, _, none, none⟩ => some (.failure strict "assignment to read-only property")
    | _ => none
  match blocked, object.props key with
  | some result, _ => (result, object)
  | none, some property =>
    if property.writable then (.returned, object.propStore key value)
    else (.error "assignment to constant", object)
  | none, none => object.createNew key value strict

/-- `setprop_impl`. -/
def setprop (key : Key) (value : Value) (strict : Bool)
    (inherited : Option Property) : SetResult × Object :=
  match object.isArray, key with
  | true, .index i =>
    match object.setpropArrayFast i value strict with
    | some handled => handled
    | none => object.setpropOrdinary key value strict inherited
  | true, .length =>
    match validArrayLength value with
    | some newLen => (.returned, object.changeLength newLen)
    | none => (.error "Invalid array length", object)
  | _, .symbol _ => object.setpropSymbol key value strict inherited
  | _, _ => object.setpropOrdinary key value strict inherited

/-- What a deletion returns. -/
inductive DeleteResult
  | returned (deleted : Bool)
  | error (message : String)
  deriving DecidableEq, Repr

/-- A failed deletion: an error in strict code, otherwise false. -/
def DeleteResult.failure (strict : Bool) (message : String) : DeleteResult :=
  if strict then .error message else .returned false

/-- The dense part of `js_delete_prop`. -/
def deleteDense : Key → Object
  | .index i =>
    if object.isArray && object.denseBuf && decide (i < object.getArrayLength) &&
        decide (i < object.denseIterableLength) then
      object.denseSet i none
    else object
  | _ => object

/-- `js_delete_prop`. -/
def deleteProp (key : Key) (strict : Bool) : DeleteResult × Object :=
  if object.frozen then
    (.failure strict "cannot delete property of frozen object", object)
  else if object.isSealed then
    (.failure strict "cannot delete property of sealed object", object)
  else if object.isArray && decide (key = .length) then
    (.failure strict "cannot delete non-configurable property", object)
  else
    let cleared := object.deleteDense key
    match cleared.props key with
    | none => (.returned true, cleared)
    | some property =>
      if property.configurable then
        (.returned true,
          { cleared with props := Function.update cleared.props key none })
      else (.failure strict "cannot delete non-configurable property", cleared)

/-- `arr_del`. -/
def arrDel (i : Nat) (strict : Bool) : Object :=
  if object.getArrayLength ≤ i then object
  else
    let cleared :=
      if object.denseBuf && decide (i < object.denseIterableLength) then
        object.denseSet i none
      else object
    (cleared.deleteProp (.index i) strict).2

end Object

end AntRuntime.Objects
