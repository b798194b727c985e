import Mathlib.Logic.Function.Iterate

/-!
# Deterministic machines and code fragments

A machine is a function on configurations; `Reaches` says that iterating it
leads from one configuration to another. A program is a list of instructions,
and `FragmentAt` places a list of instructions at an address inside a program.
Both notions are over arbitrary types.
-/

namespace AntRuntime.Machine

open Function

section Reaches

variable {Config : Type*} {advance : Config → Config}

/-- Some number of steps leads from `start` to `finish`. -/
def Reaches (advance : Config → Config) (start finish : Config) : Prop :=
  ∃ steps, advance^[steps] start = finish

theorem Reaches.refl (start : Config) : Reaches advance start start :=
  ⟨0, rfl⟩

/-- One step followed by a run is a run. -/
theorem Reaches.head {start finish : Config} (rest : Reaches advance (advance start) finish) :
    Reaches advance start finish := by
  obtain ⟨steps, run⟩ := rest
  exact ⟨steps + 1, by rw [iterate_succ_apply, run]⟩

theorem Reaches.trans {start middle finish : Config} (first : Reaches advance start middle)
    (second : Reaches advance middle finish) :
    Reaches advance start finish := by
  obtain ⟨firstSteps, rfl⟩ := first
  obtain ⟨secondSteps, rfl⟩ := second
  exact ⟨secondSteps + firstSteps, iterate_add_apply _ _ _ _⟩

/-- A run that is known to make one given first step. -/
theorem Reaches.step {start next finish : Config} (first : advance start = next)
    (rest : Reaches advance next finish) :
    Reaches advance start finish := by
  subst first
  exact rest.head

/-- A machine comes to rest in one place. -/
theorem Reaches.unique {start first second : Config} (reachesFirst : Reaches advance start first)
    (reachesSecond : Reaches advance start second) (firstRests : advance first = first)
    (secondRests : advance second = second) :
    first = second := by
  obtain ⟨firstSteps, rfl⟩ := reachesFirst
  obtain ⟨secondSteps, rfl⟩ := reachesSecond
  rw [← iterate_fixed firstRests secondSteps, ← iterate_add_apply, Nat.add_comm, iterate_add_apply,
    iterate_fixed secondRests firstSteps]

end Reaches

section Fragment

variable {Instr : Type*}

/-- The instructions of `fragment` stand in `code` from address `address`. -/
def FragmentAt (code : List Instr) : Nat → List Instr → Prop
  | _, [] => True
  | address, instr :: rest => code[address]? = some instr ∧ FragmentAt code (address + 1) rest

@[simp] theorem fragmentAt_nil (code : List Instr) (address : Nat) :
    FragmentAt code address [] := trivial

@[simp] theorem fragmentAt_cons
    (code : List Instr) (address : Nat) (instr : Instr) (rest : List Instr) :
    FragmentAt code address (instr :: rest) ↔
      code[address]? = some instr ∧ FragmentAt code (address + 1) rest :=
  Iff.rfl

@[simp] theorem fragmentAt_append (code : List Instr) (address : Nat) (first second : List Instr) :
    FragmentAt code address (first ++ second) ↔
      FragmentAt code address first ∧
        FragmentAt code (address + first.length) second := by
  induction first generalizing address with
  | nil => simp
  | cons instr rest ih =>
    rw [List.cons_append, fragmentAt_cons, fragmentAt_cons, ih, and_assoc, List.length_cons,
      Nat.add_assoc, Nat.add_comm 1]

/-- A program holds the instructions that stand after a part of it. -/
theorem fragmentAt_of_append (before fragment after : List Instr) :
    FragmentAt (before ++ (fragment ++ after)) before.length fragment := by
  induction fragment generalizing before with
  | nil => trivial
  | cons instr rest ih =>
    refine ⟨by simp, ?_⟩
    simpa using ih (before ++ [instr])

end Fragment

end AntRuntime.Machine
