import AntRuntime.Objects.Define
import AntRuntime.Sorting.BottomUp
import AntRuntime.Text.Encoding

/-!
# The array mutators

`push`, `pop`, `shift`, `unshift`, `reverse`, `fill`, `sort`, `splice` and
`copyWithin` for arrays and ordinary objects. An array with a dense buffer is
changed in the buffer; otherwise the elements are read and written one by one,
which can call getters and setters. The arithmetic on positions is that of the
source for lengths that fit an `int`.
-/

namespace AntRuntime.Objects

open List

/-- The object that is operated on, and everything else. -/
structure World (σ : Type) where
  object : Object
  outside : σ

/-- The outcome of a call of a user function. -/
structure Called where
  threw : Bool
  value : Value

/-- The outcome of a call of a comparator: only the sign of a number counts. -/
inductive Answer
  | number (n : Int)
  | notNumber
  | threw
  deriving DecidableEq, Repr

/-- User functions, what the prototype chain has for a key, and the bytes that
`js_tostring` gives for a value. -/
structure Environment (σ : Type) where
  call : Nat → List Value → World σ → Called × World σ
  compare : Nat → Value → Value → World σ → Answer × World σ
  inherited : σ → Key → Option Property
  bytes : Value → List Nat

/-- What a mutator returns; `threw` is an error of user code passed on. -/
inductive Completion
  | receiver
  | value (value : Value)
  | array (elements : List (Option Value))
  | error
  | threw (error : Nat)
  deriving DecidableEq, Repr

namespace Object

/-- The dense part of `builtin_array_push`. -/
def pushDense : Object → Nat → List Value → Completion × Object
  | object, len, [] => (.value (.number len), object.arrayLenSet len)
  | object, len, value :: rest =>
    match if object.cap ≤ len then object.denseGrow (len + 1) else some object with
    | none => (.error, object)
    | some grown => (grown.denseSet len (some value)).pushDense (len + 1) rest

/-- The part of `builtin_array_push` that adds properties to the shape. -/
def pushShape : Object → Nat → List Value → Object
  | object, len, [] => object.arrayLenSet len
  | object, len, value :: rest =>
    (object.mkprop (.index len) value true true true).pushShape (len + 1) rest

/-- `builtin_array_push`. -/
def push (object : Object) (args : List Value) : Completion × Object :=
  let len := object.getArrayLength
  if object.denseBuf then object.pushDense len args
  else (.value (.number (len + args.length)), object.pushShape len args)

/-- `builtin_array_pop`. -/
def pop (object : Object) : Value × Object :=
  let len := object.getArrayLength
  if len = 0 then (.undefined, object)
  else if object.denseBuf && decide (len = object.denseIterableLength) then
    ((object.denseGet (len - 1)).getD .undefined,
      (object.denseSet (len - 1) none).arrayLenSet (len - 1))
  else
    (((object.props (.index (len - 1))).map Property.value).getD .undefined,
      object.arrayLenSet (len - 1))

/-- `memmove` of `count` slots of the buffer. -/
def moveSlots (object : Object) (target source count : Nat) : Object :=
  { object with
    data := fun i =>
      if target ≤ i ∧ i < target + count then object.data (i - target + source)
      else object.data i }

/-- Slots of the buffer set one after the other. -/
def setSlots (object : Object) (start : Nat) : List (Option Value) → Object
  | [] => object
  | slot :: rest => (object.denseSet start slot).setSlots (start + 1) rest

/-- The dense part of `builtin_array_reverse`, pair by pair. -/
def reverseDense (object : Object) (len lower : Nat) : Nat → Object
  | 0 => object
  | count + 1 =>
    let first := object.denseGet lower
    let last := object.denseGet (len - 1 - lower)
    ((object.denseSet lower last).denseSet (len - 1 - lower) first).reverseDense
      len (lower + 1) count

/-- The dense part of `builtin_array_copyWithin`, one slot after the other; an
empty slot is copied as undefined. -/
def copySlots (object : Object) (target source : Nat) : List Nat → Object
  | [] => object
  | i :: rest =>
    (object.denseSet (target + i) (some ((object.denseGet (source + i)).getD .undefined))).copySlots
        target source rest

end Object

namespace World

variable {σ : Type} (env : Environment σ) (world : World σ) (strict : Bool)

/-- The world with its object changed. -/
def lift (change : Object → Object) : World σ :=
  { world with object := change world.object }

/-- `arr_has`. -/
def arrHas (world : World σ) (i : Nat) : Bool :=
  world.object.arrHas i (env.inherited world.outside (.index i))

/-- `arr_get`, with the call of a getter. -/
def arrGet (world : World σ) (i : Nat) : Value × World σ :=
  match world.object.arrGet i (env.inherited world.outside (.index i)) with
  | .value value => (value, world)
  | .call getter =>
    let (called, world) := env.call getter [] world
    (called.value, world)

/-- `js_setprop`, with the call of a setter; tells whether it gave an error. -/
def setprop (world : World σ) (key : Key) (value : Value) (strict : Bool) : Bool × World σ :=
  let (result, object) := world.object.setprop key value strict (env.inherited world.outside key)
  match result with
  | .returned => (false, { world with object })
  | .error _ => (true, { world with object })
  | .setter f =>
    let (called, world) := env.call f [value] { world with object }
    (called.threw, world)

/-- `arr_set`. -/
def arrSet (i : Nat) (value : Value) (strict : Bool) : World σ :=
  match world.object.arrSetDense i (some value) with
  | some stored => { world with object := stored }
  | none => (world.setprop env (.index i) value strict).2

/-- `arr_del`. -/
def arrDel (world : World σ) (i : Nat) (strict : Bool) : World σ :=
  world.lift fun object => object.arrDel i strict

/-- Values stored with `js_setprop` at consecutive indices. -/
def setpropAll
    (start : Nat) : List Value → World σ → World σ
  | [], world => world
  | value :: rest, world =>
    setpropAll (start + 1) rest (world.setprop env (.index start) value strict).2

/-- The new length at the end of a mutator: arrays are not checked. -/
def setLength (newLen : Nat) (strict : Bool) : World σ :=
  if world.object.isArray then world.lift fun object => object.arrayLenSet newLen
  else (world.setprop env .length (.number newLen) strict).2

/-- One step of the loops that move elements with `js_setprop`. -/
def moveElement (source target : Nat) (world : World σ) : World σ :=
  if world.arrHas env source then
    let (element, world) := world.arrGet env source
    (world.setprop env (.index target) element strict).2
  else world

/-- The loop of `builtin_array_shift`. -/
def shiftLoop
    (start : Nat) : Nat → World σ → World σ
  | 0, world => world
  | count + 1, world => shiftLoop (start + 1) count (world.moveElement env strict start (start - 1))

/-- `builtin_array_shift`. -/
def shift : Value × World σ :=
  let len := world.object.getArrayLength
  if len = 0 then (.undefined, world)
  else if world.object.denseBuf && decide (len = world.object.denseIterableLength) then
    ((world.object.denseGet 0).getD .undefined, world.lift fun object =>
        ((object.moveSlots 0 1 (len - 1)).denseSet (len - 1) none).arrayLenSet (len - 1))
  else
    let (first, world) := world.arrGet env 0
    let world := world.shiftLoop env strict 1 (len - 1)
    (first, world.setLength env (len - 1) strict)

/-- The loop of `builtin_array_unshift`, from the last element down. -/
def unshiftLoop
    (by_ : Nat) : Nat → World σ → World σ
  | 0, world => world
  | i + 1, world => unshiftLoop by_ i (world.moveElement env strict i (i + by_))

/-- The dense part of `builtin_array_unshift`. -/
def unshiftDense (object : Object) (len : Nat) (args : List Value) : Completion × Object :=
  let newLen := len + args.length
  match if object.cap < newLen then object.denseGrow newLen else some object with
  | none => (.error, object)
  | some grown =>
    (.value (.number newLen),
      ((grown.moveSlots args.length 0 len).setSlots 0 (args.map some)).arrayLenSet newLen)

/-- `builtin_array_unshift`. -/
def unshift (args : List Value) (strict : Bool) : Completion × World σ :=
  let len := world.object.getArrayLength
  if world.object.denseBuf && decide (len = world.object.denseIterableLength) then
    let (result, object) := unshiftDense world.object len args
    (result, { world with object })
  else
    let world := world.unshiftLoop env strict args.length len
    let world := world.setpropAll env strict 0 args
    (.value (.number (len + args.length)), world.setLength env (len + args.length) strict)

/-- One pair of the loop of `builtin_array_reverse`. -/
def reversePair (lower upper : Nat) (world : World σ) : World σ :=
  let lowerExists := world.arrHas env lower
  let upperExists := world.arrHas env upper
  let (lowerValue, world) := if lowerExists then world.arrGet env lower else (.undefined, world)
  let (upperValue, world) := if upperExists then world.arrGet env upper else (.undefined, world)
  match lowerExists, upperExists with
  | true, true => (world.arrSet env lower upperValue strict).arrSet env upper lowerValue strict
  | false, true => (world.arrSet env lower upperValue strict).arrDel upper strict
  | true, false => (world.arrSet env upper lowerValue strict).arrDel lower strict
  | false, false => world

/-- The loop of `builtin_array_reverse`. -/
def reverseLoop
    (len lower : Nat) : Nat → World σ → World σ
  | 0, world => world
  | count + 1, world =>
    reverseLoop len (lower + 1) count (world.reversePair env strict lower (len - lower - 1))

/-- `builtin_array_reverse`. -/
def reverse : World σ :=
  let len := world.object.getArrayLength
  if len ≤ 1 then world
  else if world.object.denseBuf then
    world.lift fun object => object.reverseDense len 0 (len / 2)
  else world.reverseLoop env strict len 0 (len / 2)

end World

/-- `(int) tod(arg)` of a number as x86-64 converts it: what does not fit becomes the smallest
`int`. Other values are `none`. -/
def Value.toInt : Value → Option Int
  | .number n => some (if -2147483648 ≤ n ∧ n < 2147483648 then n else -2147483648)
  | _ => none

/-- A position given relative to a length: a negative one counts from the end. -/
def relative (len : Nat) (position : Int) : Nat :=
  if position < 0 then (position + len).toNat else position.toNat

/-- A position argument with the default for one that is not a number. -/
def positionArg (len default : Nat) (arg : Option Value) : Nat :=
  match arg.bind Value.toInt with
  | some position => relative len position
  | none => default

namespace World

variable {σ : Type} (env : Environment σ) (world : World σ) (strict : Bool)

/-- The loop of `builtin_array_fill`. -/
def fillLoop
    (value : Value)
    (start : Nat) : Nat → World σ → World σ
  | 0, world => world
  | count + 1, world => fillLoop value (start + 1) count (world.arrSet env start value strict)

/-- The range that `builtin_array_fill` writes. -/
def fillRange (len : Nat) (args : List Value) : Nat × Nat :=
  (min (positionArg len 0 args[1]?) len, min (positionArg len len args[2]?) len)

/-- `builtin_array_fill`. -/
def fill (args : List Value) (strict : Bool) : World σ :=
  let (start, stop) := fillRange world.object.getArrayLength args
  world.fillLoop env strict (args[0]?.getD .undefined) start (stop - start)

/-- The target, the source and the number of elements of a
`builtin_array_copyWithin`. -/
def copyRange (len : Nat) (args : List Value) : Nat × Nat × Nat :=
  let target := positionArg len 0 args[0]?
  let start := positionArg len 0 args[1]?
  let stop := min (positionArg len len args[2]?) len
  (target, start, min (stop - start) (len - target))

/-- The values of properties in the shape, as `lkp` and `js_prop_load` give
them. -/
def loadAll (object : Object) (start count : Nat) : List Value :=
  (range count).map fun i =>
    ((object.props (.index (start + i))).map Property.value).getD .undefined

/-- The stores of `builtin_array_copyWithin`, up to an error. -/
def copyLoop
    (target : Nat) : List Value → World σ → Completion × World σ
  | [], world => (.receiver, world)
  | value :: rest, world =>
    match world.setprop env (.index target) value strict with
    | (true, world) => (.error, world)
    | (false, world) => copyLoop (target + 1) rest world

/-- `builtin_array_copyWithin`. -/
def copyWithin (args : List Value) (strict : Bool) : Completion × World σ :=
  let (target, start, count) := copyRange world.object.getArrayLength args
  if count = 0 then (.receiver, world)
  else if world.object.denseBuf then
    let order := range count
    (.receiver, world.lift fun object =>
        object.copySlots target start (if start < target then order.reverse else order))
  else world.copyLoop env strict target (loadAll world.object start count)

/-- The elements that `builtin_array_sort` reads one by one: the defined ones
and the number of undefineds. -/
def sortGather
    (start : Nat) : Nat → World σ → (List Value × Nat) × World σ
  | 0, world => (([], 0), world)
  | count + 1, world =>
    if world.arrHas env start then
      let (value, world) := world.arrGet env start
      let ((values, undefs), world) := sortGather (start + 1) count world
      (if value = .undefined then (values, undefs + 1) else (value :: values, undefs), world)
    else sortGather (start + 1) count world

/-- The elements that `builtin_array_sort` finds in the buffer; an empty slot
counts as undefined. -/
def sortDense (object : Object) (len : Nat) : List Value × Nat :=
  let values := (range len).map fun i => (object.denseGet i).getD .undefined
  (values.filter (· ≠ .undefined), values.count .undefined)

/-- `strcmp(a, b) <= 0` on strings without a NUL. -/
def strcmpLe (a b : List Nat) : Bool :=
  Text.lexLe a b

/-- The key of a value in a sort without a comparator: its bytes up to a NUL. -/
def sortKey (value : Value) : List Nat :=
  (env.bytes value).takeWhile (· ≠ 0)

/-- `js_compare_values(a, b) <= 0` with a comparator: a result that is not a
number is zero, and so is an error. -/
def compareLe (f : Nat) : Sorting.Compare Value (World σ) :=
  fun a b world =>
    match env.compare f a b world with
    | (.number n, world) => (decide (n ≤ 0), world)
    | (_, world) => (true, world)

/-- The merge sort of `builtin_array_sort`, with the keys beside the values if
there is no comparator. -/
def sortValues (comparator : Option Nat) (values : List Value)
    (world : World σ) : List Value × World σ :=
  match comparator with
  | some f => Sorting.mergeSort (compareLe env f) values world
  | none =>
    let pairs := values.map fun value => (sortKey env value, value)
    let (sorted, world) :=
      Sorting.mergeSort (fun a b world => (strcmpLe a.1 b.1, world)) pairs world
    (sorted.map Prod.snd, world)

/-- Values stored with `arr_set` at consecutive indices. -/
def arrSetAll
    (start : Nat) : List Value → World σ → World σ
  | [], world => world
  | value :: rest, world => arrSetAll (start + 1) rest (world.arrSet env start value strict)

/-- Consecutive indices deleted with `arr_del`. -/
def arrDelAll (start : Nat) : Nat → World σ → World σ
  | 0, world => world
  | count + 1, world => arrDelAll (start + 1) count (world.arrDel start strict)

/-- The write-back of `builtin_array_sort`. -/
def sortWriteback (strict dense : Bool) (len : Nat) (values : List Value) (undefs : Nat)
    (world : World σ) : World σ :=
  let sorted := values ++ replicate undefs .undefined
  if dense then
    world.lift fun object =>
      object.setSlots 0 (sorted.map some ++ replicate (len - sorted.length) none)
  else
    arrDelAll strict sorted.length (len - sorted.length) (world.arrSetAll env strict 0 sorted)

/-- `builtin_array_sort`; `comparator` is `none` for `undefined`. It returns the
array, also if the comparator threw. -/
def sort (comparator : Option Nat) (strict : Bool) : Completion × World σ :=
  let len := world.object.getArrayLength
  let dense := world.object.denseBuf
  if len = 0 then (.receiver, world)
  else
    let ((values, undefs), world) :=
      if dense then (sortDense world.object len, world)
      else world.sortGather env 0 len
    let (sorted, world) :=
      if values.length ≤ 1 then (values, world)
      else world.sortValues env comparator values
    (.receiver, world.sortWriteback env strict dense len sorted undefs)

/-- The dense part of `array_shallow_copy`: `arr_set` at the end of the new
array, which an empty slot stays. -/
def shallowCopyDense (source : Object) (start : Nat) : Nat → Object → Object
  | 0, result => result
  | count + 1, result =>
    shallowCopyDense source (start + 1) count
      ((result.arrSetDense start (source.denseGet start)).getD result)

/-- The keys that `array_shallow_copy` takes from the shape: those that start
with a digit. -/
def digitKey : Key → Bool
  | .index _ => true
  | .name text => (text.toList.head?.map Char.isDigit).getD false
  | _ => false

/-- `array_shallow_copy`. The new array has a buffer, but what is in the shape
of the old one goes to its shape. -/
def arrayShallowCopy (object : Object) (len : Nat) : Object :=
  let result := Object.literal []
  if object.denseBuf then shallowCopyDense object 0 len result
  else
    ({ result with
      props := fun key =>
        if digitKey key then
          (object.props key).map fun property => .plain property.value
        else none } : Object).arrayLenSet len

/-- `builtin_array_toSorted`, with the new array as the object. -/
def toSorted (comparator : Option Nat) (strict : Bool) : Completion × World σ :=
  let copied := arrayShallowCopy world.object world.object.getArrayLength
  ({ world with object := copied } : World σ).sort env comparator strict

/-- The first position of a `builtin_array_splice`. -/
def spliceStart (len : Nat) (args : List Value) : Nat :=
  min (positionArg len 0 args[0]?) len

/-- The number of elements that a `builtin_array_splice` removes. -/
def spliceDeleteCount (len : Nat) (args : List Value) : Nat :=
  let start := spliceStart len args
  match args with
  | [] => 0
  | [_] => len - start
  | _ :: count :: _ =>
    match count.toInt with
    | some n => min n.toNat (len - start)
    | none => len - start

/-- Elements read with `arr_get`. -/
def arrGetAll
    (start : Nat) : Nat → World σ → List (Option Value) × World σ
  | 0, world => ([], world)
  | count + 1, world =>
    let (value, world) := world.arrGet env start
    let (rest, world) := arrGetAll (start + 1) count world
    (some value :: rest, world)

/-- The elements that the slow part of `builtin_array_splice` removes; those of
an object that is not an array are read from its own properties. -/
def spliceRemoved
    (start : Nat) : Nat → World σ → List (Option Value) × World σ
  | 0, world => ([], world)
  | count + 1, world =>
    let (element, world) :=
      if world.object.isArray then
        if world.arrHas env start then
          let (value, world) := world.arrGet env start
          (some value, world)
        else (none, world)
      else ((world.object.props (.index start)).map Property.value, world)
    let (rest, world) := spliceRemoved (start + 1) count world
    (element :: rest, world)

/-- One element moved by the slow part of `builtin_array_splice`. -/
def spliceMove (source target : Nat) (world : World σ) : World σ :=
  if world.object.isArray then
    if world.arrHas env source then
      let (value, world) := world.arrGet env source
      world.arrSet env target value strict
    else world.arrDel target strict
  else
    let value := ((world.object.props (.index source)).map Property.value).getD .undefined
    (world.setprop env (.index target) value strict).2

/-- The loop that moves elements up, from the last one down to `first`. -/
def spliceUp
    (first by_ : Nat) : Nat → World σ → World σ
  | 0, world => world
  | count + 1, world =>
    spliceUp first by_ count (world.spliceMove env strict (first + count) (first + count + by_))

/-- The loop that moves elements down, from `first` on. -/
def spliceDown
    (first by_ : Nat) : Nat → World σ → World σ
  | 0, world => world
  | count + 1, world =>
    spliceDown (first + 1) by_ count (world.spliceMove env strict first (first - by_))

/-- The dense part of `builtin_array_splice`. -/
def spliceDense (object : Object) (len start deleted : Nat) (items : List Value) : Option Object :=
  let newLen := len - deleted + items.length
  let capacity := if object.denseBuf then object.cap else 0
  let grown :=
    if items.length = deleted then some object
    else if capacity < newLen then object.denseGrow newLen
    else if object.denseBuf then some object
    else none
  grown.map fun grown =>
    let moved :=
      if items.length = deleted then grown
      else
        grown.moveSlots (start + items.length) (start + deleted) (len - (start + deleted))
    let stored := moved.setSlots start (items.map some)
    let cleared := stored.setSlots newLen (replicate (len - newLen) none)
    cleared.arrayLenSet newLen

/-- The elements behind the removed ones, moved by the slow part of
`builtin_array_splice`. -/
def spliceShift (len first deleted inserted : Nat) (world : World σ) : World σ :=
  let newLen := len - deleted + inserted
  if deleted < inserted then
    world.spliceUp env strict first (inserted - deleted) (len - first)
  else if inserted < deleted then
    let world := world.spliceDown env strict first (deleted - inserted) (len - first)
    if world.object.isArray then world.arrDelAll strict newLen (len - newLen)
    else world
  else world

/-- The slow part of `builtin_array_splice`. -/
def spliceSlow (len start deleted : Nat) (items : List Value)
    (strict : Bool) : Completion × World σ :=
  let (removed, world) := world.spliceRemoved env start deleted
  let world := world.spliceShift env strict len (start + deleted) deleted items.length
  let world := world.setpropAll env strict start items
  (.array removed, world.setLength env (len - deleted + items.length) strict)

/-- `builtin_array_splice`; the removed elements go to a new array. -/
def splice (args : List Value) (strict : Bool) : Completion × World σ :=
  let len := world.object.getArrayLength
  let start := spliceStart len args
  let deleted := spliceDeleteCount len args
  let items := args.drop 2
  if world.object.denseBuf && decide (world.object.denseIterableLength = len) then
    let (removed, world) := world.arrGetAll env start deleted
    match spliceDense world.object len start deleted items with
    | some object => (.array removed, { world with object })
    | none => (.error, world)
  else world.spliceSlow env len start deleted items strict

end World

/-- The number of undefineds and that of defined values. -/
theorem count_add_length_filter (values : List Value) :
    values.count .undefined + (values.filter (· ≠ .undefined)).length = values.length := by
  rw [← countP_eq_length_filter, length_eq_countP_add_countP (l := values) (· == .undefined), count]
  simp

end AntRuntime.Objects
