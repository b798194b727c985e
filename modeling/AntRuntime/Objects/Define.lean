import AntRuntime.Objects.Model

/-!
# Object.defineProperty

`object_define_property_keyed` for objects that are not proxies: the checks of
the descriptor, the length of an array, the dense buffer, which is moved to the
shape, and the checks and changes of an existing property.
-/

namespace AntRuntime.Objects

/-- The value of a `get` or `set` field. -/
inductive AccessorField
  | undefined
  | function (f : Nat)
  | notCallable
  deriving DecidableEq, Repr

/-- The function of a field that passed the check. -/
def AccessorField.target : AccessorField → Option Nat
  | .function f => some f
  | _ => none

/-- The fields present in a descriptor. -/
structure Descriptor where
  value : Option Value
  writable : Option Bool
  enumerable : Option Bool
  configurable : Option Bool
  get : Option AccessorField
  set : Option AccessorField
  deriving DecidableEq, Repr

namespace Descriptor

/-- The checks of the descriptor alone. -/
def invalid (desc : Descriptor) : Option String :=
  if desc.get = some .notCallable then some "Getter must be a function"
  else if desc.set = some .notCallable then some "Setter must be a function"
  else if (desc.value.isSome || desc.writable.isSome) &&
      (desc.get.isSome || desc.set.isSome) then
    some ("Invalid property descriptor. Cannot both specify accessors and " ++
      "a value or writable attribute")
  else none

/-- The descriptor has a value and all attributes. -/
def isPlain (desc : Descriptor) : Bool :=
  desc.get.isNone && desc.set.isNone && desc.value.isSome &&
    decide (desc.writable = some true) &&
    decide (desc.enumerable = some true) &&
    decide (desc.configurable = some true)

end Descriptor

/-- What `Object.defineProperty` returns: the object or an error. -/
inductive DefineResult
  | returned
  | error (message : String)
  deriving DecidableEq, Repr

/-- The message of a redefinition that is refused. -/
def cannotRedefine (key : Key) (what : String) : DefineResult :=
  .error ("Cannot redefine property " ++ key.text ++ ": " ++ what)

namespace Object

variable (object : Object)

/-- `define` on the length of an array. -/
def defineLength (desc : Descriptor) : DefineResult × Object :=
  if desc.get.isSome || desc.set.isSome then
    (.error "Invalid property descriptor. Cannot use accessors for array length", object)
  else if desc.enumerable = some true || desc.configurable = some true then
    (.error "Cannot redefine array length attributes", object)
  else
    match desc.value with
    | none => (.returned, object.changeLength object.len)
    | some value =>
      match validArrayLength value with
      | none => (.error "Invalid array length", object)
      | some newLen => (.returned, object.changeLength newLen)

/-- The loop of `array_materialize_dense_for_define`: every dense element is
moved to the shape. Tells whether any was. -/
def moveDense (object : Object) (start : Nat) : Nat → Bool × Object
  | 0 => (false, object)
  | count + 1 =>
    match object.denseGet start with
    | none => object.moveDense (start + 1) count
    | some value =>
      let moved := (object.denseSet start none).mkprop (.index start) value true true true
      (true, (moved.moveDense (start + 1) count).2)

/-- `array_materialize_dense_for_define`: the array leaves the dense
representation if an element was moved. -/
def materializeDense : Key → Object
  | .index i =>
    if object.isArray && object.denseBuf && decide (i < uint32Max) then
      let (anyMoved, moved) := object.moveDense 0 object.cap
      if anyMoved then { moved with fastArray := false } else moved
    else object
  | _ => object

/-- The refusals for a property that is not configurable. -/
def refused (key : Key) (existing : Property) (desc : Descriptor) : Option DefineResult :=
  let existingNonconfig := !existing.configurable || object.isSealed || object.frozen
  let existingReadonly := (!existing.isAccessor && !existing.writable) ||
    !existing.writable || object.frozen
  let newAccessor := desc.get.isSome || desc.set.isSome
  let newData := desc.value.isSome || desc.writable.isSome
  if !existingNonconfig then none
  else if desc.configurable = some true then
    some (cannotRedefine key "cannot change configurable from false to true")
  else if desc.enumerable = some (!existing.enumerable) then
    some (cannotRedefine key "cannot change enumerable of a non-configurable property")
  else if !existing.writable && decide (desc.writable = some true) then
    some (cannotRedefine key "cannot change writable from false to true")
  else if existing.isAccessor && newData then
    some (cannotRedefine key "cannot convert accessor property to data property")
  else if !existing.isAccessor && newAccessor then
    some (cannotRedefine key "cannot convert data property to accessor property")
  else if existing.isAccessor && desc.get.isSome &&
      decide (desc.get.bind AccessorField.target ≠ existing.getter.join) then
    some (cannotRedefine key "cannot replace getter of a non-configurable property")
  else if existing.isAccessor && desc.set.isSome &&
      decide (desc.set.bind AccessorField.target ≠ existing.setter.join) then
    some (cannotRedefine key "cannot replace setter of a non-configurable property")
  else if existingReadonly && decide (desc.writable = some true) then
    some (cannotRedefine key "cannot change writable from false to true")
  else if existingReadonly && desc.value.isSome &&
      decide (desc.value ≠ some existing.value) then
    some (.error ("Cannot assign to read-only property '" ++ key.text ++ "'"))
  else none

/-- The checks of the last branch, made again for a data descriptor. -/
def refusedData (key : Key) (existing : Property) (desc : Descriptor)
    (configurable : Bool) : Option DefineResult :=
  let isNonconfig := !existing.configurable || object.frozen
  let isReadonly := !existing.writable || object.frozen
  if isNonconfig && configurable then
    some (cannotRedefine key "cannot change configurable from false to true")
  else if isNonconfig && isReadonly && decide (desc.writable = some true) then
    some (cannotRedefine key "cannot change writable from false to true")
  else if isNonconfig && isReadonly && desc.value.isSome &&
      decide (desc.value ≠ some existing.value) then
    some (.error ("Cannot assign to read-only property '" ++ key.text ++ "'"))
  else none

/-- The property that a permitted definition leaves: attributes that the
descriptor does not name keep their value, or are false for a new property. -/
def defined (existing : Option Property) (desc : Descriptor) : Property :=
  let writable := desc.writable.getD ((existing.map (·.writable)).getD false)
  let enumerable := desc.enumerable.getD ((existing.map (·.enumerable)).getD false)
  let configurable := desc.configurable.getD ((existing.map (·.configurable)).getD false)
  match existing with
  | some property =>
    if desc.value.isNone && desc.writable.isNone &&
        desc.get.isNone && desc.set.isNone then
      if property.isAccessor then
        { property with writable := false, enumerable, configurable }
      else { property with writable, enumerable, configurable }
    else if desc.get.isSome || desc.set.isSome then
      { property with
        writable := false
        enumerable
        configurable
        getter := (desc.get.map AccessorField.target).or property.getter
        setter := (desc.set.map AccessorField.target).or property.setter }
    else
      ⟨desc.value.getD property.value, writable, enumerable, configurable, none, none⟩
  | none =>
    if desc.get.isSome || desc.set.isSome then
      ⟨.undefined, false, enumerable, configurable, desc.get.map AccessorField.target,
        desc.set.map AccessorField.target⟩
    else
      ⟨desc.value.getD .undefined, writable, enumerable, configurable, none, none⟩

/-- The rest of `object_define_property_keyed`, on the shape. -/
def defineInShape (key : Key) (desc : Descriptor) : DefineResult × Object :=
  let store (property : Property) : DefineResult × Object :=
    (.returned, ({ object with props := Function.update object.props key (some property) } :
        Object).arrayDefineOrSetIndex key)
  match object.props key with
  | none =>
    if object.frozen || object.isSealed || !object.extensible then
      (.error ("Cannot define property " ++ key.text ++ ", object is not extensible"), object)
    else store (defined none desc)
  | some existing =>
    match refused object key existing desc with
    | some result => (result, object)
    | none =>
      let isGeneric :=
        desc.value.isNone && desc.writable.isNone &&
          desc.get.isNone && desc.set.isNone
      let isAccessor := desc.get.isSome || desc.set.isSome
      let configurable := desc.configurable.getD existing.configurable
      if isGeneric || isAccessor then store (defined (some existing) desc)
      else
        match refusedData object key existing desc configurable with
        | some result => (result, object)
        | none => store (defined (some existing) desc)

/-- `object_define_property_keyed`. -/
def defineProperty (key : Key) (desc : Descriptor) : DefineResult × Object :=
  match desc.invalid with
  | some message => (.error message, object)
  | none =>
    if object.isArray && decide (key = .length) then
      object.defineLength desc
    else
      match key, desc.value with
      | .index i, some value =>
        if desc.isPlain && object.isArray && object.fastArray &&
            object.extensible && !object.isSealed && !object.frozen &&
            decide (i < uint32Max) && object.denseBuf &&
            decide (i < object.cap) then
          (.returned, (object.denseSet i (some value)).arrayDefineOrSetIndex key)
        else (object.materializeDense key).defineInShape key desc
      | _, _ => (object.materializeDense key).defineInShape key desc

end Object

end AntRuntime.Objects
