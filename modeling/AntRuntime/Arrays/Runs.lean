import AntRuntime.Arrays.Definition

/-!
# Runs of array operations

From an array literal on, a sequence of operations gives the outputs of the
standard, as long as each operation keeps the two parts of the representation
in step.
-/

namespace AntRuntime.Arrays

open Objects Object

/-- The outputs of a sequence of operations in the runtime. -/
def outputs (object : Object) : List Op → List Output
  | [] => []
  | op :: rest => (step object op).1 :: outputs (step object op).2 rest

/-- The outputs that the standard prescribes. -/
def ecmaOutputs
    (conversion : LengthConversion)
    (array : EcmaArray) : List Op → List Output
  | [] => []
  | op :: rest =>
    (ecmaStep conversion array op).1 ::
      ecmaOutputs conversion (ecmaStep conversion array op).2 rest

/-- Each operation of a run keeps the two parts of the representation in
step. -/
def RunMeets (conversion : LengthConversion) (object : Object) : List Op → Prop
  | [] => True
  | op :: rest => Meets conversion object op ∧ RunMeets conversion (step object op).2 rest

/-- An array literal of the standard. -/
def ecmaLiteral (slots : List (Option Value)) : EcmaArray :=
  ⟨slots.length, true, fun i => slots[i]?.join.map .plain⟩

section Literals

theorem capacityLoop_bounds
    {minimum rounds cap : Nat} (positive : 0 < cap) (capLe : cap ≤ uint32Max) :
    0 < capacityLoop minimum rounds cap ∧ capacityLoop minimum rounds cap ≤ uint32Max := by
  induction rounds generalizing cap with
  | zero => exact ⟨positive, capLe⟩
  | succ rounds ih =>
    unfold capacityLoop
    split_ifs with small
    · exact ih (by omega) (by omega)
    · exact ⟨positive, capLe⟩

variable {slots : List (Option Value)}

theorem slot_literal (i : Nat) : slot (literal slots) i = slots[i]?.join := by
  have bounds := @capacityLoop_bounds slots.length 32 maxDenseInitialCap (by decide) (by decide)
  have capacity : slots.length ≤ literalCapacity slots.length ∧
      0 < literalCapacity slots.length := by
    unfold literalCapacity
    simp only
    split_ifs with small <;> omega
  have dense : (literal slots).denseBuf = true := by
    simp [denseBuf, literal]
    omega
  by_cases inside : i < literalCapacity slots.length
  · exact slot_eq_data dense inside
  · rw [slot_eq_none_of_cap_le (show (literal slots).cap ≤ i from Nat.not_lt.mp inside),
      List.getElem?_eq_none (by omega)]
    rfl

theorem view_literal : view (literal slots) = ecmaLiteral slots := by
  have elements : element (literal slots) = fun i => slots[i]?.join.map .plain := by
    funext i
    rw [element, slot_literal]
    cases slots[i]?.join <;> rfl
  simp only [view, elements]
  rfl

theorem sound_literal (fits : slots.length ≤ uint32Max) :
    Sound (literal slots) where
  isArray := rfl
  unfrozen := rfl
  unsealed := rfl
  extensible := rfl
  len_le := fits
  cap_le := by
    have bounds := @capacityLoop_bounds slots.length 32 maxDenseInitialCap (by decide) (by decide)
    change literalCapacity slots.length ≤ uint32Max
    unfold literalCapacity
    simp only
    split_ifs with small <;> omega
  slot_lt := by
    intro i value isSlot
    rw [slot_literal] at isSlot
    by_contra above
    rw [List.getElem?_eq_none (Nat.not_lt.mp above)] at isSlot
    cases isSlot
  prop_lt := by
    intro i property isProp
    cases isProp
  shadow := by
    intro i value property _ isProp
    cases isProp
  accessor := by
    intro i property isProp
    cases isProp

end Literals

section Runs

variable {conversion : LengthConversion} {object : Object}

/-- One operation. -/
theorem Sound.step (sound : Sound object) {op : Op} (meets : Meets conversion object op) :
    ecmaStep conversion (view object) op =
        ((Arrays.step object op).1, view (Arrays.step object op).2) ∧
      Sound (Arrays.step object op).2 := by
  cases op with
  | get i => exact ⟨Prod.ext (sound.get i) rfl, sound⟩
  | has i => exact ⟨Prod.ext (congrArg Output.bool (sound.has i)) rfl, sound⟩
  | set i value strict => exact sound.set i.2 meets value strict
  | delete i strict => exact sound.delete i strict
  | length =>
    refine ⟨?_, sound⟩
    simp only [Arrays.step, sound.getArrayLength]
    rfl
  | setLength value strict => exact sound.setLength conversion meets strict
  | defineIndex i desc => exact sound.defineIndex i.2 meets
  | defineLength desc => exact sound.defineLength conversion meets.1 meets.2

/-- A sequence of operations. -/
theorem Sound.outputs
    {ops : List Op} (sound : Sound object) (meets : RunMeets conversion object ops) :
    Arrays.outputs object ops = ecmaOutputs conversion (view object) ops := by
  induction ops generalizing object with
  | nil => rfl
  | cons op rest ih =>
    obtain ⟨now, later⟩ := meets
    obtain ⟨step_eq, stepSound⟩ := sound.step now
    simp only [Arrays.outputs, ecmaOutputs, step_eq]
    rw [ih stepSound later]

end Runs

/-- Every sequence of operations on an array literal whose operations keep the
two parts of the representation in step gives the outputs of the standard. -/
theorem outputs_eq_of_runMeets
    (conversion : LengthConversion) (slots : List (Option Value)) (fits : slots.length ≤ uint32Max)
    (ops : List Op) (meets : RunMeets conversion (literal slots) ops) :
    outputs (literal slots) ops = ecmaOutputs conversion (ecmaLiteral slots) ops := by
  rw [← view_literal]
  exact (sound_literal fits).outputs meets

section Runs

/-- The conversion that accepts numbers only. -/
def numberLengths : LengthConversion where
  apply := validArrayLength
  number := fun _ => rfl

/-- A store past the dense part, a shorter length, a longer one, a read. -/
def shrinkAndGrow : List Op :=
  [.set ⟨64, by decide⟩ (.other 1) true, .setLength (.number 0) true,
    .setLength (.number 65) true, .get ⟨64, by decide⟩]

/-- The element outlives the shorter length: it is in the shape, and only the
dense buffer is cleared. -/
theorem outputs_ne_shrinkAndGrow :
    outputs (literal []) shrinkAndGrow ≠
      ecmaOutputs numberLengths (ecmaLiteral []) shrinkAndGrow := by
  decide +kernel

/-- A hole is filled, the array is cut, grown again and read. -/
def fillAndCut : List Op :=
  [.set ⟨1, by decide⟩ (.other 1) true, .setLength (.number 1) true,
    .setLength (.number 3) true, .has ⟨1, by decide⟩,
    .defineIndex ⟨2, by decide⟩ ⟨some (.other 2), none, none, none, none, none⟩,
    .get ⟨2, by decide⟩]

/-- A run whose operations keep the two parts in step. -/
theorem outputs_eq_fillAndCut :
    RunMeets numberLengths (literal [some .undefined, none]) fillAndCut ∧
      outputs (literal [some .undefined, none]) fillAndCut =
        ecmaOutputs numberLengths (ecmaLiteral [some .undefined, none])
          fillAndCut := by
  have meets :
      RunMeets numberLengths (literal [some .undefined, none]) fillAndCut := by
    refine ⟨?_, ?_, ?_, trivial, ?_, trivial, trivial⟩
    · intro _ _ property isProp
      cases isProp
    · refine ⟨rfl, ?_⟩
      intro newLen _ i _ _
      rfl
    · refine ⟨rfl, ?_⟩
      intro newLen _ i _ _
      rfl
    · refine ⟨?_, ?_, ?_⟩
      · intro isPlain
        cases isPlain
      · intro hasSetter
        cases hasSetter
      · intro noValue
        cases noValue
  exact ⟨meets, outputs_eq_of_runMeets numberLengths _ (by decide) fillAndCut meets⟩

end Runs

end AntRuntime.Arrays
