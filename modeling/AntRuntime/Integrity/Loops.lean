import AntRuntime.Integrity.Definitions

/-!
# The element-wise loops of the mutators

The loops read and write elements one by one, and user functions run in
between. Stores through `js_setprop` are checked on frozen objects and on
objects without a buffer, stores through `arr_set` only on the latter.
-/

namespace AntRuntime.Integrity

open Objects Arrays World

variable {σ : Type} {level : Level} {env : Environment σ} {world : World σ}

/-- User functions keep the level. -/
structure Trusted (level : Level) (env : Environment σ) : Prop where
  call : ∀ f args (world : World σ), Held level world.object →
    Kept level world.object (env.call f args world).2.object
  compare : ∀ f a b (world : World σ), Held level world.object →
    Kept level world.object (env.compare f a b world).2.object

/-- Assignments to indices are checked. -/
def Checked (level : Level) (object : Object) : Prop :=
  level = .frozen ∨ object.denseBuf = false

/-- Assignments to indices stay checked while the object is kept. -/
theorem Checked.kept {a b : Object} (checked : Checked level a) (kept : Kept level a b) :
    Checked level b :=
  checked.imp_right kept.sparse

variable {object : Object}

section Steps

variable (trusted : Trusted level env) (kept : Kept level object world.object)

include trusted kept

/-- Reading an element keeps the object. -/
theorem Trusted.arrGet (i : Nat) : Kept level object (world.arrGet env i).2.object := by
  unfold World.arrGet
  split
  · exact kept
  · exact kept.trans (trusted.call _ _ world kept.held)

/-- An assignment keeps the object if it meets what the level asks. -/
theorem Trusted.setprop
    {key : Key} {value : Value} (meets : AssignMeets level world.object key value) (strict : Bool) :
    Kept level object (world.setprop env key value strict).2.object := by
  have stored := kept.trans (kept.held.assign meets strict (env.inherited world.outside key))
  unfold World.setprop
  simp only
  split
  · exact stored
  · exact stored
  · rename_i f isSetter
    exact stored.trans (trusted.call f [value]
      ⟨(world.object.setprop key value strict (env.inherited world.outside key)).2,
        world.outside⟩ stored.held)

/-- An assignment to an index keeps an object on which such assignments are checked. -/
theorem Trusted.setpropIndex
    (checked : Checked level object) (i : Nat) (value : Value) (strict : Bool) :
    Kept level object (world.setprop env (.index i) value strict).2.object := by
  refine trusted.setprop kept ?_ strict
  intro _
  exact (checked.kept kept).imp_right Or.inl

/-- Moving an element to another index keeps an object on which such assignments are
checked. -/
theorem Trusted.moveElement (checked : Checked level object) (strict : Bool) (source target : Nat) :
    Kept level object (world.moveElement env strict source target).object := by
  unfold World.moveElement
  split_ifs
  · exact trusted.setpropIndex (trusted.arrGet kept source) checked target _ strict
  · exact kept

variable (sparse : object.denseBuf = false)
include sparse

/-- Storing an element keeps an object without a buffer. -/
theorem Trusted.arrSet (i : Nat) (value : Value) (strict : Bool) :
    Kept level object (world.arrSet env i value strict).object := by
  have notDense : world.object.arrSetDense i (some value) = none := by
    simp [Object.arrSetDense, kept.sparse sparse]
  unfold World.arrSet
  rw [notDense]
  exact trusted.setpropIndex kept (Or.inr sparse) i value strict

omit trusted in
/-- Deleting an element keeps an object without a buffer. -/
theorem Kept.arrDel (i : Nat) (strict : Bool) :
    Kept level object (world.arrDel i strict).object := by
  unfold World.arrDel World.lift Object.arrDel
  simp only [kept.sparse sparse, Bool.false_and, Bool.false_eq_true, if_false]
  split_ifs
  · exact kept
  · exact kept.trans (kept.held.deleteProp _ strict)

/-- A step of `splice` that moves or deletes an element keeps the object. -/
theorem Trusted.spliceMove (strict : Bool) (source target : Nat) :
    Kept level object (world.spliceMove env strict source target).object := by
  unfold World.spliceMove
  split_ifs
  · exact trusted.arrSet (trusted.arrGet kept source) sparse target _ strict
  · exact kept.arrDel sparse target strict
  · exact trusted.setpropIndex kept (Or.inr sparse) target _ strict

end Steps

section Loops

variable (trusted : Trusted level env) (kept : Kept level object world.object)

include trusted kept

section

variable (checked : Checked level object) (strict : Bool)
include checked strict

/-- Assigning a row of elements keeps the object. -/
theorem Trusted.setpropAll (start : Nat) (values : List Value) :
    Kept level object (world.setpropAll env strict start values).object := by
  induction values generalizing world start with
  | nil => exact kept
  | cons value rest ih =>
    exact ih (trusted.setpropIndex kept checked start value strict) (start + 1)

/-- The loop of `shift` keeps the object. -/
theorem Trusted.shiftLoop (start count : Nat) :
    Kept level object (world.shiftLoop env strict start count).object := by
  induction count generalizing world start with
  | zero => exact kept
  | succ count ih => exact ih (trusted.moveElement kept checked strict start _) (start + 1)

/-- The loop of `unshift` keeps the object. -/
theorem Trusted.unshiftLoop (by_ count : Nat) :
    Kept level object (world.unshiftLoop env strict by_ count).object := by
  induction count generalizing world with
  | zero => exact kept
  | succ i ih => exact ih (trusted.moveElement kept checked strict i _)

/-- The loop of `copyWithin` keeps the object. -/
theorem Trusted.copyLoop (target : Nat) (values : List Value) :
    Kept level object (world.copyLoop env strict target values).2.object := by
  induction values generalizing world target with
  | nil => exact kept
  | cons value rest ih =>
    have first := trusted.setpropIndex kept checked target value strict
    unfold copyLoop
    split
    · rename_i after stored
      rw [stored] at first
      exact first
    · rename_i after stored
      rw [stored] at first
      exact ih first (target + 1)

end

section

variable (sparse : object.denseBuf = false) (strict : Bool)
include sparse strict

/-- Storing a row of elements keeps the object. -/
theorem Trusted.arrSetAll (start : Nat) (values : List Value) :
    Kept level object (world.arrSetAll env strict start values).object := by
  induction values generalizing world start with
  | nil => exact kept
  | cons value rest ih => exact ih (trusted.arrSet kept sparse start value strict) (start + 1)

omit trusted in
/-- Deleting a row of elements keeps the object. -/
theorem Kept.arrDelAll (start count : Nat) :
    Kept level object (world.arrDelAll strict start count).object := by
  induction count generalizing world start with
  | zero => exact kept
  | succ count ih => exact ih (kept.arrDel sparse start strict) (start + 1)

/-- The loop of `fill` keeps the object. -/
theorem Trusted.fillLoop (value : Value) (start count : Nat) :
    Kept level object (world.fillLoop env strict value start count).object := by
  induction count generalizing world start with
  | zero => exact kept
  | succ count ih => exact ih (trusted.arrSet kept sparse start value strict) (start + 1)

/-- Exchanging two elements keeps the object. -/
theorem Trusted.reversePair (lower upper : Nat) :
    Kept level object (world.reversePair env strict lower upper).object := by
  have read : ∀ (world : World σ) (present : Bool) (i : Nat), Kept level object world.object →
      Kept level object (if present then world.arrGet env i else (.undefined, world)).2.object := by
    intro world present i kept
    cases present with
    | false => exact kept
    | true => exact trusted.arrGet kept i
  unfold World.reversePair
  simp only
  generalize world.arrHas env lower = lowerExists
  generalize world.arrHas env upper = upperExists
  have first := read world lowerExists lower kept
  generalize (if lowerExists then world.arrGet env lower else (.undefined, world)) =
    lowerRead at first ⊢
  rcases lowerRead with ⟨lowerValue, afterLower⟩
  have second := read afterLower upperExists upper first
  generalize (if upperExists then afterLower.arrGet env upper
    else (.undefined, afterLower)) = upperRead at second ⊢
  rcases upperRead with ⟨upperValue, afterUpper⟩
  have storeLower := trusted.arrSet second sparse lower upperValue strict
  have storeUpper := trusted.arrSet second sparse upper lowerValue strict
  split
  · exact trusted.arrSet storeLower sparse upper _ strict
  · exact storeLower.arrDel sparse upper strict
  · exact storeUpper.arrDel sparse lower strict
  · exact second

/-- The loop of `reverse` keeps the object. -/
theorem Trusted.reverseLoop (len lower count : Nat) :
    Kept level object (world.reverseLoop env strict len lower count).object := by
  induction count generalizing world lower with
  | zero => exact kept
  | succ count ih => exact ih (trusted.reversePair kept sparse strict lower _) (lower + 1)

/-- The loop of `splice` that makes room keeps the object. -/
theorem Trusted.spliceUp (first by_ count : Nat) :
    Kept level object (world.spliceUp env strict first by_ count).object := by
  induction count generalizing world with
  | zero => exact kept
  | succ count ih => exact ih (trusted.spliceMove kept sparse strict (first + count) _)

/-- The loop of `splice` that closes a gap keeps the object. -/
theorem Trusted.spliceDown (first by_ count : Nat) :
    Kept level object (world.spliceDown env strict first by_ count).object := by
  induction count generalizing world first with
  | zero => exact kept
  | succ count ih => exact ih (trusted.spliceMove kept sparse strict first _) (first + 1)

end

/-- Gathering the elements to sort only reads them. -/
theorem Trusted.sortGather (start count : Nat) :
    Kept level object (world.sortGather env start count).2.object := by
  induction count generalizing world start with
  | zero => exact kept
  | succ count ih =>
    unfold sortGather
    split_ifs
    · exact ih (trusted.arrGet kept start) (start + 1)
    · exact ih kept (start + 1)

/-- Collecting the elements that `splice` removes only reads them. -/
theorem Trusted.spliceRemoved (start count : Nat) :
    Kept level object (world.spliceRemoved env start count).2.object := by
  induction count generalizing world start with
  | zero => exact kept
  | succ count ih =>
    unfold spliceRemoved
    split_ifs
    · exact ih (trusted.arrGet kept start) (start + 1)
    · exact ih kept (start + 1)
    · exact ih kept (start + 1)

end Loops

/-- Sorting without a comparator runs no user code. -/
theorem sortValues_none (values : List Value) (world : World σ) :
    (world.sortValues env none values).2 = world :=
  @Sorting.mergeSort_state (List Nat × Value) (World σ)
    (fun a b world => (strcmpLe a.1 b.1, world)) (fun a b => b = a)
    (fun _ => rfl) (fun _ _ _ first second => second.trans first) _
    (fun _ _ _ _ _ => rfl) world

/-- Sorting changes the object only through the comparator. -/
theorem Trusted.sortValues
    (trusted : Trusted level env) (held : Held level world.object) (comparator : Option Nat)
    (values : List Value) :
    Kept level world.object (world.sortValues env comparator values).2.object := by
  cases comparator with
  | none =>
    rw [sortValues_none]
    exact Kept.refl held
  | some f =>
    refine @Sorting.mergeSort_state _ _ (compareLe env f)
      (fun a b => Held level a.object → Kept level a.object b.object)
      (fun a => Kept.refl) ?_ values ?_ world held
    · exact fun a b c first second held => (first held).trans (second (first held).held)
    · intro a _ b _ world held
      have compared := trusted.compare f a b world held
      unfold compareLe
      split
      · rename_i answered
        rw [answered] at compared
        exact compared
      · rename_i answered
        rw [answered] at compared
        exact compared

end AntRuntime.Integrity
