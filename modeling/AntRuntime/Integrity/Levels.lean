import AntRuntime.Arrays.Definition
import AntRuntime.Objects.Mutators

/-!
# Integrity levels

`Object.freeze`, `Object.seal` and `Object.preventExtensions`, the operations
on an object afterwards, and what each level promises about the own properties.
-/

namespace AntRuntime.Integrity

open Objects Arrays

/-- What was asked for an object. -/
inductive Level
  | frozen
  | sealed
  | inextensible
  deriving DecidableEq, Repr

variable (object : Object)

/-- `builtin_object_freeze`. -/
def objectFreeze : Object :=
  { object with
    props := fun key =>
      (object.props key).map fun property =>
        { property with writable := false, configurable := false }
    frozen := true
    isSealed := true
    extensible := false }

/-- `builtin_object_seal`. -/
def objectSeal : Object :=
  { object with
    props := fun key =>
      (object.props key).map fun property =>
        { property with configurable := false }
    isSealed := true
    extensible := false }

/-- `builtin_object_preventExtensions`. -/
def objectPreventExtensions : Object :=
  { object with extensible := false }

/-- The object once the call has returned. -/
def Level.apply : Level → Object → Object
  | .frozen => objectFreeze
  | .sealed => objectSeal
  | .inextensible => objectPreventExtensions

/-- The own property of a key, as reads and
`object_get_own_property_descriptor_keyed` show it. -/
def own : Key → Option EcmaProperty
  | .index i =>
    match if i < object.len then slot object i else none with
    | some value => some (.plain value)
    | none => (object.props (.index i)).map toEcma
  | .length =>
    if object.isArray then some (.data (.number object.len) true true true)
    else (object.props .length).map toEcma
  | key => (object.props key).map toEcma

/-- The object has the key. -/
def owns (key : Key) : Bool :=
  (own object key).isSome

/-- What a level promises of a later state. -/
def Level.Promise : Level → Object → Object → Prop
  | .frozen, before, after => ∀ key, own after key = own before key
  | .sealed, before, after => ∀ key, owns after key = owns before key
  | .inextensible, before, after => ∀ key, owns after key = true → owns before key = true

/-- `sv_put_field_cached`: an entry for an own data property or for the
addition of a property is used if its guards hold. -/
def putFieldCached (key : Key) (value : Value) (strict : Bool) (inherited : Option Property)
    (ownHit addHit : Bool) : SetResult × Object :=
  let isData :=
    match object.props key with
    | some property => !property.isAccessor && property.writable
    | none => false
  if isData && (ownHit || !(object.isArray && decide (key = .length))) then
    (.returned, object.propStore key value)
  else if addHit && !object.frozen && !object.isSealed && object.extensible &&
      !object.isArray && decide (key ≠ .name "__proto__") &&
      (object.props key).isNone then
    (.returned, object.mkprop key value true true true)
  else object.setprop key value strict inherited

/-- An operation on the object; `elsewhere` is anything that happens to
everything else. -/
inductive Op (σ : Type)
  | assign (key : Key) (value : Value) (strict : Bool)
  | assignCached (key : Key) (value : Value) (strict ownHit addHit : Bool)
  | delete (key : Key) (strict : Bool)
  | define (key : Key) (desc : Descriptor)
  | push (args : List Value)
  | pop
  | shift (strict : Bool)
  | unshift (args : List Value) (strict : Bool)
  | reverse (strict : Bool)
  | fill (args : List Value) (strict : Bool)
  | copyWithin (args : List Value) (strict : Bool)
  | sort (comparator : Option Nat) (strict : Bool)
  | splice (args : List Value) (strict : Bool)
  | elsewhere (outside : σ)

variable {σ : Type}

/-- The assignment through a cache, with the call of a setter. -/
def assignCached (env : Environment σ) (world : World σ) (key : Key) (value : Value)
    (strict ownHit addHit : Bool) : World σ :=
  let (result, object) :=
    putFieldCached world.object key value strict (env.inherited world.outside key) ownHit addHit
  match result with
  | .setter f => (env.call f [value] { world with object }).2
  | _ => { world with object }

/-- The world after an operation. -/
def step (env : Environment σ) (world : World σ) : Op σ → World σ
  | .assign key value strict => (world.setprop env key value strict).2
  | .assignCached key value strict ownHit addHit =>
    assignCached env world key value strict ownHit addHit
  | .delete key strict => world.lift fun object => (object.deleteProp key strict).2
  | .define key desc => world.lift fun object => (object.defineProperty key desc).2
  | .push args => world.lift fun object => (object.push args).2
  | .pop => world.lift fun object => object.pop.2
  | .shift strict => (world.shift env strict).2
  | .unshift args strict => (world.unshift env args strict).2
  | .reverse strict => world.reverse env strict
  | .fill args strict => world.fill env args strict
  | .copyWithin args strict => (world.copyWithin env args strict).2
  | .sort comparator strict => (world.sort env comparator strict).2
  | .splice args strict => (world.splice env args strict).2
  | .elsewhere outside => { world with outside }

section Conditions

variable (level : Level) (object : Object)

/-- A new length of an array that the level allows: no element of the buffer
is cut off or uncovered. -/
def LengthMeets (newLen : Nat) : Prop :=
  match level with
  | .frozen => newLen = object.len
  | .sealed => ∀ i, (slot object i).isSome = true → (i < newLen ↔ i < object.len)
  | .inextensible => ∀ i, (slot object i).isSome = true → i < newLen → i < object.len

/-- An assignment to the length gives an allowed one; an assignment to an index
in the buffer of an array that is not frozen finds the index. -/
def AssignMeets (key : Key) (value : Value) : Prop :=
  object.isArray = true → match key with
    | .length =>
      ∀ newLen, Object.validArrayLength value = some newLen → LengthMeets level object newLen
    | .index i =>
      level = .frozen ∨ object.denseBuf = false ∨
        object.denseIterableLength ≤ i ∨ owns object (.index i) = true
    | _ => True

/-- A definition of the length gives an allowed one. A definition of an index,
which moves the buffer to the shape, finds an empty buffer if the array is
frozen and no element behind the length otherwise. -/
def DefineMeets (key : Key) (desc : Descriptor) : Prop :=
  object.isArray = true → match key with
    | .length =>
      ∀ value newLen, desc.value = some value → Object.validArrayLength value = some newLen →
        LengthMeets level object newLen
    | .index i =>
      match level with
      | .frozen =>
        (∀ j, slot object j = none) ∧ ((object.props (.index i)).isSome = true → i < object.len)
      | _ => ∀ j, (slot object j).isSome = true → j < object.len
    | _ => True

/-- No slot of the buffer below the length is empty. -/
def Packed : Prop :=
  ∀ i, i < object.denseIterableLength → (slot object i).isSome = true

/-- A mutator that takes arguments writes none. For an object that is not an
array, `push` also stores the length. -/
def PushMeets (args : List Value) : Prop :=
  args = [] ∧ (object.isArray = false → ∃ property, object.props .length = some property ∧
        (level = .frozen → property.isAccessor = false ∧
          property.value = .number object.getArrayLength))

/-- Nothing is removed from a sealed object, and the length of a frozen one is
zero already. -/
def PopMeets : Prop :=
  object.getArrayLength = 0 ∨ match level with
    | .frozen => False
    | .sealed =>
      object.denseBuf = true → object.getArrayLength = object.denseIterableLength →
        slot object (object.getArrayLength - 1) = none
    | .inextensible => True

/-- Without a buffer every store of `shift` is checked, but the length of an
array is not. -/
def ShiftMeets : Prop :=
  object.getArrayLength = 0 ∨ object.isArray = false ∨ match level with
    | .frozen => False
    | .sealed => object.denseBuf = false
    | .inextensible =>
      object.denseBuf = false ∨ (object.getArrayLength = object.denseIterableLength ∧ Packed object)

/-- The same for `unshift`. -/
def UnshiftMeets (args : List Value) : Prop :=
  object.isArray = false ∨ match level with
    | .frozen => args = []
    | _ =>
      object.denseBuf = false ∨ (args = [] ∧ object.getArrayLength = object.denseIterableLength)

/-- The mutators that change elements in place do not check the buffer. -/
def InPlaceMeets (idle : Prop) : Prop :=
  idle ∨ object.denseBuf = false ∨ (level ≠ .frozen ∧ Packed object)

/-- A comparator could remove elements that `sort` then puts back. -/
def SortMeets (comparator : Option Nat) : Prop :=
  InPlaceMeets level object (object.getArrayLength = 0) ∧
    (level = .inextensible → object.denseBuf = true → comparator = none)

/-- `fill` stays within the buffer. -/
def FillMeets (args : List Value) : Prop :=
  let range := World.fillRange object.getArrayLength args
  InPlaceMeets level object (range.2 ≤ range.1) ∧
    (object.denseBuf = true → range.1 < range.2 → range.2 ≤ object.cap)

/-- `splice` puts in as many elements as it takes out, or all its stores are
checked. -/
def SpliceMeets (args : List Value) : Prop :=
  let len := object.getArrayLength
  let deleted := World.spliceDeleteCount len args
  let items := args.drop 2
  object.isArray = false ∨ match level with
    | .frozen =>
      items.length = deleted ∧
        (object.denseBuf = false ∨ object.denseIterableLength ≠ len ∨ items = [])
    | _ =>
      object.denseBuf = false ∨
        (object.denseIterableLength = len ∧ items.length = deleted ∧ Packed object)

/-- The condition of each operation on the state it starts from. The mutators
are considered for lengths that fit an `int`, as the source casts them. -/
def Meets : Op σ → Prop
  | .assign key value _ => AssignMeets level object key value
  | .assignCached key value _ _ _ => AssignMeets level object key value
  | .delete _ _ => True
  | .define key desc => DefineMeets level object key desc
  | .push args => object.getArrayLength < 2 ^ 31 ∧ PushMeets level object args
  | .pop => object.getArrayLength < 2 ^ 31 ∧ PopMeets level object
  | .shift _ => object.getArrayLength < 2 ^ 31 ∧ ShiftMeets level object
  | .unshift args _ => object.getArrayLength < 2 ^ 31 ∧ UnshiftMeets level object args
  | .reverse _ =>
    object.getArrayLength < 2 ^ 31 ∧ InPlaceMeets level object (object.getArrayLength ≤ 1)
  | .fill args _ => object.getArrayLength < 2 ^ 31 ∧ FillMeets level object args
  | .copyWithin args _ =>
    object.getArrayLength < 2 ^ 31 ∧ InPlaceMeets level object
        ((World.copyRange object.getArrayLength args).2.2 = 0)
  | .sort comparator _ => object.getArrayLength < 2 ^ 31 ∧ SortMeets level object comparator
  | .splice args _ => object.getArrayLength < 2 ^ 31 ∧ SpliceMeets level object args
  | .elsewhere _ => True

end Conditions

/-- The worlds that a run can reach. Each operation meets its condition in the
state it starts from, and so do the operations that user functions perform
while it runs. -/
inductive Reaches (level : Level) : World σ → World σ → Prop
  | refl (world : World σ) : Reaches level world world
  | step {start world : World σ} (env : Environment σ) (op : Op σ) :
      Reaches level start world → Meets level world.object op →
      (∀ f args world, Reaches level world (env.call f args world).2) →
      (∀ f a b world, Reaches level world (env.compare f a b world).2) →
      Reaches level start (Integrity.step env world op)

end AntRuntime.Integrity
